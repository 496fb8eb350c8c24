import GraphQL.Proofs.Abbreviating

/-!
Fragments only abbreviate. A document whose fragments do not spread each other in a cycle says the same
as the document in which inline fragments stand in the place of all spreads: a response that is there
at once has the same data and the same errors, and an operation is as deep and as complex as before.
-/

namespace GraphQL

theorem Document.map_putFragment (change : Fragment → Fragment)
    (named : ∀ fragment, (change fragment).name = fragment.name) (fragments : List Fragment)
    (added : Fragment) :
    putFragment (fragments.map change) (change added) = (putFragment fragments added).map change := by
  induction fragments with
  | nil => rfl
  | cons first rest ih =>
      rw [List.map_cons, putFragment, putFragment, named, named]
      split
      · rfl
      · rw [ih, List.map_cons]

theorem Document.fragments_inlined (document : Document) :
    document.inlined.fragments = document.fragments.map (·.inlined document.fragments) := by
  have folded : document.fragments = List.foldl _ [] document.definitions := rfl
  refine (List.foldl_map ..).trans (.trans ?_ (congrArg _ folded.symm))
  refine @List.foldl_hom _ _ _ (List.map (Fragment.inlined document.fragments)) _ _
    document.definitions [] fun made definition => ?_
  cases definition with
  | fragment added => exact map_putFragment (·.inlined document.fragments) (fun _ => rfl) made added
  | operation found => rfl
  | typeSystem => rfl

/-- The directives of all spreads in a document. -/
def Document.spreadDirectives (document : Document) : List (List DirectiveNode) :=
  document.definitions.flatMap fun definition => Selection.spreadDirectivesOfAll definition.selections

/-- The application answers alike whenever it is asked for the same, whatever nodes of the query are
the reason to ask. -/
structure Application.Constant {σ : Type} (application : Application σ) (answer : Call → Reply) :
    Prop where
  replies : ∀ asked state, (application.answer asked state).1 = answer asked
  drains : ∃ drain : Nat → List Value × Option Failure, ∀ handle state,
    (application.drain handle state).1 = drain handle
  blind : Blind answer

namespace Document

variable {document : Document} {answer : Call → Reply} {scope : Scope}

theorem decides_of_mem
    (binds : ∀ directives ∈ document.spreadDirectives,
      ∃ included, scope.takes answer directives = .ok included)
    {definition : Definition} (member : definition ∈ document.definitions) :
    scope.Decides answer definition.selections :=
  fun directives inside => binds directives (List.mem_flatMap.2 ⟨definition, member, inside⟩)

theorem grounded (fragments : scope.fragments = document.fragments) {rank : String → Nat}
    (ranked : Fragment.Ranked document.fragments rank)
    (binds : ∀ directives ∈ document.spreadDirectives,
      ∃ included, scope.takes answer directives = .ok included) : scope.Grounded answer rank where
  ranked := fragments ▸ ranked
  decides found := by
    rw [fragments] at found
    exact decides_of_mem binds (mem_definitions (name_of_fragment? found).1)

end Document

namespace Request

variable {σ : Type}

theorem environment_inlined (request : Request) (schema : Schema) (document : Document)
    (operation : Operation) (vars : Variables) :
    request.environment schema document.inlined (operation.inlined document.fragments) vars
      = (request.environment schema document operation vars).inlined := by
  unfold environment Environment.inlined
  rw [Document.fragments_inlined]

/-- A document without spreads is answered as before, if the response is there at once. -/
theorem told_inlined (application : Application σ) {answer : Call → Reply}
    (constant : application.Constant answer) (schema : Schema) (checked : schema.check = .ok ())
    (strict : schema.assumeValid = false) (document : Document)
    (acyclic : Fragment.Acyclic document.fragments) (defined : document.SpreadsDefined)
    (request : Request)
    (binds : ∀ directives ∈ document.spreadDirectives, ∃ included,
      (Scope.mk schema document.fragments request.coerced).takes answer directives = .ok included)
    (synchronous : Bool) (state : σ) :
    (request.execute application schema document.inlined synchronous { state }).awaited
        = (request.execute application schema document synchronous { state }).awaited
      ∧ ((request.execute application schema document synchronous { state }).awaited = false →
        (request.execute application schema document.inlined synchronous { state }).told
          = (request.execute application schema document synchronous { state }).told) := by
  rw [execute, execute, executeWith, executeWith, checked, Document.choose_inlined]
  dsimp only
  cases chosen : document.choose request.operationName with
  | error fault => exact ⟨rfl, fun _ => rfl⟩
  | ok operation =>
      have kind : rootType schema (operation.inlined document.fragments) = rootType schema operation := rfl
      dsimp only [Except.map]
      rw [kind]
      cases rooted : rootType schema operation with
      | error error => exact ⟨rfl, fun _ => rfl⟩
      | ok root =>
          obtain ⟨rank, ranked⟩ := Document.exists_ranked acyclic defined
          obtain ⟨drain, drains⟩ := constant.drains
          let setting : Setting :=
            ⟨request.environment schema document operation request.coerced, synchronous⟩
          let pairing : Pairing := ⟨answer, drain, setting.Remembers schema.Knows answer,
            setting.inlined.Remembers schema.Knows answer⟩
          -- what either run remembers is what nodes select, with and without spreads
          have pairs : setting.Pairs schema.Knows rank pairing :=
            ⟨Schema.sound_of_check checked strict, Document.grounded rfl ranked binds, constant.blind,
              rfl, rfl⟩
          have member := Document.mem_definitions_of_choose chosen
          have parallel := Execution.parallel_operationIn pairs operation.kind.rootOrder root
            (Schema.knows_root checked strict rooted)
            ⟨Document.spreadsBelow_of_mem ranked defined member, Document.decides_of_mem binds member⟩
          have worlds : World.Parallel pairing { state } ({ state } : World σ) :=
            { errors := rfl
              left := fun _ inside => by cases inside
              right := fun _ inside => by cases inside }
          obtain ⟨awaited, told⟩ :=
            told_carryOut ⟨constant.replies, drains⟩ synchronous parallel worlds
          rw [environment_inlined]
          exact ⟨awaited.symm, fun prompt => (told prompt).symm⟩

/-- Replacing every spread by an inline fragment with a copy of the fragment's selections leaves no
spread, and changes neither what a prompt response shows nor what operations cost. -/
theorem fragments_only_abbreviate (application : Application σ) (answer : Call → Reply)
    (constant : application.Constant answer) (schema : Schema) (checked : schema.check = .ok ())
    (strict : schema.assumeValid = false) (document : Document)
    (acyclic : Fragment.Acyclic document.fragments) (defined : document.SpreadsDefined)
    (request : Request)
    (binds : ∀ directives ∈ document.spreadDirectives, ∃ included,
      (Scope.mk schema document.fragments request.coerced).takes answer directives = .ok included) :
    document.inlined.spreads = []
      ∧ (∀ synchronous state,
        (request.execute application schema document.inlined synchronous { state }).awaited
            = (request.execute application schema document synchronous { state }).awaited
          ∧ ((request.execute application schema document synchronous { state }).awaited = false →
            (request.execute application schema document.inlined synchronous { state }).told
              = (request.execute application schema document synchronous { state }).told))
      ∧ ∀ name operation, document.choose name = .ok operation → ∃ inlined,
        document.inlined.choose name = .ok inlined
          ∧ inlined.depth document.inlined.fragments = operation.depth document.fragments
          ∧ ∀ vars, Cost.complexity ⟨schema, document.inlined.fragments, vars⟩ inlined
            = Cost.complexity ⟨schema, document.fragments, vars⟩ operation := by
  refine ⟨Document.spreads_inlined acyclic defined, fun synchronous state =>
    told_inlined application constant schema checked strict document acyclic defined request binds
      synchronous state, fun name operation chosen => ?_⟩
  obtain ⟨rank, ranked⟩ := Document.exists_ranked acyclic defined
  have below := Document.spreadsBelow_of_mem ranked defined (Document.mem_definitions_of_choose chosen)
  refine ⟨operation.inlined document.fragments, ?_, ?_, fun vars => ?_⟩
  · rw [Document.choose_inlined, chosen]
    rfl
  · exact Operation.depth_inlined ranked operation _ below
  · have fits : (Scope.mk schema document.fragments vars).fragments = document.fragments := rfl
    exact Operation.complexity_inlined (fits ▸ ranked) operation _ below

end Request

/-- A schema whose only field leads back to its type. -/
def Schema.circling : Schema := .ofLayout
  { types := #[⟨.str "Query", .object
      (.ok (.ofList [(.str "a",
        { Field.plain "a" (.named (.declared 0)) with resolve := .function 0 })]))
      (.ok []) .absent⟩]
    query := some (.named (.declared 0))
    mutation := none
    subscription := none
    extra := []
    directives := Directive.specified
    overrides := []
    assumeValid := false }

set_option maxRecDepth 10000 in
theorem Schema.check_circling : circling.check = .ok () := by
  have reached : circling.reached = .ok [(.str "Query", .declared 0),
      (.str "Boolean", .standard .boolean), (.str "String", .standard .string)] := by
    cbv
  unfold check
  rw [reached]
  decide +kernel

/-- An application whose resolvers find nothing but further values. -/
def Application.circling : Application Unit where
  answer _ _ := (.ok (.map []), ())
  drain _ _ := (([], none), ())
  delay _ _ := 0
  finish _ _ := (.ok .null, ())

/-- A fragment that spreads another one, on two levels, and is itself spread twice on one. -/
def Document.nesting : Document where
  source := []
  definitions := [
    .operation ⟨0, .query, none, [], [], [
      .field 2 none "a" [] [] [
        .spread 6 "F" [],
        .spread 11 "F" [⟨16, "include", [⟨25, "if", .boolean 29 true⟩]⟩]]]⟩,
    .fragment ⟨40, "F", "Query", [], [
      .spread 60 "G" [],
      .field 65 none "a" [] [] [.spread 69 "G" []]]⟩,
    .fragment ⟨80, "G", "Query", [], [.field 100 (some "b") "a" [] [] []]⟩]

/-- Fragments that spread only lower ones do not come to spread themselves. -/
theorem Fragment.acyclic_of_falling {fragments : List Fragment} (rank : String → Nat)
    (falling : ∀ outer inner, Spreads fragments outer inner → rank inner < rank outer) :
    Acyclic fragments := by
  have falls : ∀ {outer inner}, Relation.TransGen (Spreads fragments) outer inner →
      rank inner < rank outer := by
    intro outer inner leads
    induction leads with
    | single step => exact falling _ _ step
    | tail _ step ih => exact (falling _ _ step).trans ih
  exact fun name leads => lt_irrefl _ (falls leads)

theorem Document.acyclic_nesting : Fragment.Acyclic Document.nesting.fragments := by
  apply Fragment.acyclic_of_falling (fun name => if name = "F" then 1 else 0)
  rintro outer inner ⟨fragment, found, inside⟩
  obtain ⟨member, rfl⟩ := name_of_fragment? found
  have cases : ∀ fragment ∈ Document.nesting.fragments,
      ∀ inner ∈ Selection.spreadsOfAll fragment.selections,
        (if inner = "F" then 1 else 0) < if fragment.name = "F" then 1 else 0 := by
    decide
  exact cases fragment member inner inside

namespace Request

/-- What is found where fragments are nested. -/
def circled : Value := .ofFields [("a", .ofFields [("b", .map []), ("a", .ofFields [("b", .map [])])])]

set_option maxRecDepth 10000 in
theorem told_nesting :
    (({} : Request).execute Application.circling .circling Document.nesting true
        { state := () }).awaited = false
      ∧ (({} : Request).execute Application.circling .circling Document.nesting true
        { state := () }).told = .ok (circled, []) := by
  rw [execute, executeWith_eq _ _ _ _ _ Schema.check_circling rfl rfl]
  constructor <;> cbv

set_option maxRecDepth 10000 in
/-- Fragments that are spread repeatedly are an abbreviation. -/
theorem nesting_is_abbreviated :
    Schema.circling.check = .ok () ∧ Fragment.Acyclic Document.nesting.fragments
      ∧ Document.nesting.SpreadsDefined
      ∧ Document.nesting.inlined.spreads = []
      ∧ (({} : Request).execute Application.circling .circling Document.nesting.inlined true
          { state := () }).told = .ok (circled, []) := by
  have defined : Document.nesting.SpreadsDefined := by
    intro name member
    have cases : ∀ name ∈ Document.nesting.spreads,
        (fragment? Document.nesting.fragments name).isSome := by
      decide
    exact Option.isSome_iff_exists.1 (cases name member)
  have binds : ∀ directives ∈ Document.nesting.spreadDirectives, ∃ included,
      (Scope.mk .circling Document.nesting.fragments ({} : Request).coerced).takes
        (fun _ => .ok (.map [])) directives = .ok included := by
    have listed : Document.nesting.spreadDirectives
        = [[], [⟨16, "include", [⟨25, "if", .boolean 29 true⟩]⟩], [], []] := rfl
    rw [listed]
    intro directives member
    simp only [List.mem_cons, List.not_mem_nil, or_false] at member
    rcases member with rfl | rfl | rfl | rfl <;> exact ⟨true, by cbv⟩
  obtain ⟨spreads, told, costs⟩ := fragments_only_abbreviate Application.circling
    (fun _ => .ok (.map [])) ⟨fun _ _ => rfl, ⟨_, fun _ _ => rfl⟩, fun _ _ _ => rfl⟩ .circling
    Schema.check_circling rfl .nesting Document.acyclic_nesting defined {} binds
  obtain ⟨prompt, shown⟩ := told_nesting
  exact ⟨Schema.check_circling, Document.acyclic_nesting, defined, spreads,
    ((told true ()).2 prompt).trans shown⟩

end Request

end GraphQL
