import GraphQL.Proofs.Branch
import GraphQL.Proofs.Preparing

/-!
The depth limit and what is executed. Every field that is resolved stands at the end of a branch of
the operation, so within the limit no response path has more keys than the limit allows, unless the
branch expands a fragment within itself.
-/

namespace GraphQL

mutual

/-- The fragments that a selection spreads on any level. -/
def Selection.spreads : Selection → List String
  | .field _ _ _ _ _ selections => Selection.spreadsOfAll selections
  | .inlineFragment _ _ _ selections => Selection.spreadsOfAll selections
  | .spread _ name _ => [name]

def Selection.spreadsOfAll : List Selection → List String
  | [] => []
  | selection :: rest => selection.spreads ++ Selection.spreadsOfAll rest

end

/-- Whether one fragment spreads another. -/
def Fragment.Spreads (fragments : List Fragment) (outer inner : String) : Prop :=
  ∃ fragment, fragment? fragments outer = some fragment
    ∧ inner ∈ Selection.spreadsOfAll fragment.selections

/-- No fragment comes to spread itself. -/
def Fragment.Acyclic (fragments : List Fragment) : Prop :=
  ∀ name, ¬ Relation.TransGen (Fragment.Spreads fragments) name name

theorem Selection.spreads_subset (selections : List Selection) (selection : Selection)
    (member : selection ∈ selections) : selection.spreads ⊆ Selection.spreadsOfAll selections := by
  induction selections with
  | nil => cases member
  | cons first rest ih =>
      rw [Selection.spreadsOfAll]
      rcases List.mem_cons.1 member with rfl | later
      · exact List.subset_append_left _ _
      · exact List.Subset.trans (ih later) (List.subset_append_right _ _)

theorem Branch.isChain_spreads {fragments : List Fragment} {selections : List Selection}
    {spreads keys : List String} {node : FieldNode}
    (branch : Branch fragments selections spreads keys node) :
    spreads.IsChain (Fragment.Spreads fragments)
      ∧ ∀ name ∈ spreads.head?, name ∈ Selection.spreadsOfAll selections := by
  induction branch with
  | field node member => exact ⟨.nil, fun _ found => by cases found⟩
  | nested outer member _ ih =>
      refine ⟨ih.1, fun name found => Selection.spreads_subset _ _ member ?_⟩
      rw [FieldNode.selection, Selection.spreads]
      exact ih.2 name found
  | inline member _ ih =>
      refine ⟨ih.1, fun name found => Selection.spreads_subset _ _ member ?_⟩
      rw [Selection.spreads]
      exact ih.2 name found
  | spread member found _ ih =>
      constructor
      · refine List.isChain_cons.2 ⟨fun inner first => ?_, ih.1⟩
        exact ⟨_, found, ih.2 inner first⟩
      · intro other same
        cases same
        refine Selection.spreads_subset _ _ member ?_
        rw [Selection.spreads]
        exact List.mem_cons_self

/-- Without cycles no branch expands a fragment within itself. -/
theorem Branch.nodup_spreads {fragments : List Fragment} (acyclic : Fragment.Acyclic fragments)
    {selections : List Selection} {spreads keys : List String} {node : FieldNode}
    (branch : Branch fragments selections spreads keys node) : spreads.Nodup := by
  have steps := branch.isChain_spreads.1.imp fun _ _ => Relation.TransGen.single
  have apart := List.isChain_iff_pairwise.1 steps
  refine apart.imp fun {outer inner} reaches => ?_
  rintro rfl
  exact acyclic _ reaches

/-- A branch along response keys that expands a fragment within itself. -/
def Reenters (fragments : List Fragment) (selections : List Selection) (keys : List String) :
    Prop :=
  ∃ spreads node, Branch fragments selections spreads keys node ∧ ¬ spreads.Nodup

namespace World

variable {σ : Type}

theorem leads_runAction {α : Type} (application : Application σ) (action : Action α)
    (world : World σ) : world.Leads (action.run (ask application) world).2 := by
  induction action generalizing world with
  | done result => exact .refl world
  | call asked next ih => exact (leads_ask application asked world).trans (ih _ _)

theorem yields_of_runAction {α : Type} (application : Application σ) (action : Action α)
    (world final : World σ) (leads : (action.run (ask application) world).2.Leads final) :
    action.Yields final.account (action.run (ask application) world).1 := by
  induction action generalizing world with
  | done result => rfl
  | call asked next ih =>
      have later := leads_runAction application (next (world.ask application asked).1)
        (world.ask application asked).2
      exact ⟨_, (later.trans leads).saw (saw_ask application asked world), ih _ _ leads⟩

theorem keeps_runAction {α : Type} {policy : Policy} (application : Application σ)
    (action : Action α) (aside : action.StaysAside)
    (allowed : ∀ asked, Aside asked → policy.calls asked) (world : World σ)
    (keeps : world.Keeps policy) : (action.run (ask application) world).2.Keeps policy := by
  induction action generalizing world with
  | done result => exact keeps
  | call asked next ih =>
      exact ih _ (aside.2 _ fun _ _ => trivial) _ (keeps_ask application asked keeps
        (allowed asked aside.1))

end World

/-- A schema with one object type, whose only field leads back to it. -/
def Schema.looped : Schema := .ofLayout
  { types := #[⟨.str "Query", .object
      (.ok (.ofList [(.str "a",
        { name := .str "a", type := .ok (.named (.declared 0)), arguments := .ok .empty
          resolve := .function 0, complexity := .absent, deprecated := none })]))
      (.ok []) .absent⟩]
    query := some (.named (.declared 0))
    mutation := none
    subscription := none
    extra := []
    directives := Directive.specified
    overrides := []
    assumeValid := true }

/-- Resolvers that find an object a number of times, and null from then on. -/
def Application.countdown : Application Nat where
  answer _ left := (.ok (if left = 0 then .null else .map []), left - 1)
  drain _ left := (([], none), left)
  delay _ _ := 0
  finish _ left := (.ok .null, left)

namespace Request

variable {σ : Type}

/-- Prepared variables mean that the operation keeps within the depth limit. -/
theorem depth_le_of_prepared {account : Account} (request : Request) (schema : Schema)
    (document : Document) (operation : Operation) (limit : Int)
    (limited : request.limits.depth = some limit) (vars : Variables)
    (prepared : (request.prepare schema document operation).Yields account (.ok (.ok vars))) :
    (operation.depth document.fragments : Int) ≤ limit := by
  unfold prepare at prepared
  rcases Action.yields_bind _ _ _ prepared with ⟨coerced, _, prepared⟩
  split at prepared
  · cases Action.yields_pure _ _ prepared
  · next found =>
      rcases Action.yields_bind _ _ _ prepared with ⟨errors, checked, prepared⟩
      rcases Action.yields_bind _ _ _ checked with ⟨complexity, _, checked⟩
      have sum := Action.yields_pure _ _ checked
      split at prepared
      · have shallow := List.append_eq_nil_iff.1 sum.symm
        simp only [Cost.checkDepth, limited] at shallow
        by_contra deeper
        rw [if_pos (by omega)] at shallow
        cases shallow.1
      · cases Action.yields_pure _ _ prepared

/-- How the keys of a path keep to a limit: there are no more of them, or the operation leads to them
by a branch that expands a fragment within itself. -/
def Bounded (request : Request) (query : String) (limit : Int) (path : ResponsePath) : Prop :=
  ∃ document operation, Document.parse query = .ok document
    ∧ document.choose request.operationName = .ok operation
    ∧ ((path.names.length : Int) ≤ limit
      ∨ (Reenters document.fragments operation.selections path.names
        ∧ ¬ Fragment.Acyclic document.fragments))

/-- The positions that the limit bounds. -/
def limitPolicy (request : Request) (query : String) (limit : Int) : Policy where
  calls asked := ∀ info, asked.info? = some info → request.Bounded query limit info.path
  effects
    | .resolving path => request.Bounded query limit path
    | _ => True

theorem closed_all (schema : Schema) : Closed schema fun _ => True :=
  ⟨fun _ _ _ _ _ _ _ _ _ _ => trivial, fun _ _ _ _ => trivial⟩

theorem bounded_of_located (request : Request) (query : String) (limit : Int) {setting : Setting}
    {account : Account} {root : TypeId} {document : Document}
    (parsed : Document.parse query = .ok document)
    (chosen : document.choose request.operationName = .ok setting.environment.operation)
    (shared : setting.environment.fragments = document.fragments)
    (shallow : (setting.environment.operation.depth document.fragments : Int) ≤ limit)
    {path : ResponsePath} {nodes : List FieldNode}
    (located : Located setting account root path nodes) : request.Bounded query limit path := by
  rcases List.exists_mem_of_ne_nil nodes located.nodes_ne_nil with ⟨node, member⟩
  rcases taken_of_located located node member with ⟨spreads, taken⟩
  have branch := taken.branch
  rw [shared] at branch
  refine ⟨document, _, parsed, chosen, ?_⟩
  by_cases distinct : spreads.Nodup
  · have bound := Operation.length_le_depth _ branch distinct
    exact .inl (by omega)
  · refine .inr ⟨⟨spreads, node, branch, distinct⟩, fun acyclic => ?_⟩
    exact distinct (branch.nodup_spreads acyclic)

theorem keeps_executeWith (application : Application σ) (request : Request) (schema : Schema)
    (query : String) (document : Document) (operation : Operation) (limit : Int) (vars : Variables)
    (world : World σ) (parsed : Document.parse query = .ok document)
    (chosen : document.choose request.operationName = .ok operation)
    (shallow : (operation.depth document.fragments : Int) ≤ limit)
    (fresh : ∀ policy : Policy, (∀ asked, Aside asked → policy.calls asked) →
      world.Keeps policy) :
    (request.executeWith application schema document vars false world).world.Keeps
      (request.limitPolicy query limit) := by
  have kept : world.Keeps (request.limitPolicy query limit) :=
    fresh _ fun asked aside info found => by
      rw [aside] at found
      cases found
  unfold executeWith
  split
  · exact kept
  · rw [chosen]
    simp only
    split
    · exact kept
    · next root _ =>
        let setting : Setting := ⟨request.environment schema document operation vars, false⟩
        let final := (carryOut application false (Execution.operation setting root) world).world
        have obeys : (Execution.operation setting root).Obeys
            (setting.policy final.account root fun _ => True) final.account :=
          Execution.obeys_operationIn (closed_all setting.schema) _ trivial
        have keeps : final.Keeps (setting.policy final.account root fun _ => True) :=
          keeps_of_carryOut application false _ world obeys
            (fresh _ (Region.whole setting final.account root fun _ => True).calls_aside)
        have bounded : ∀ path nodes, Located setting final.account root path nodes →
            request.Bounded query limit path := fun _ _ located =>
          request.bounded_of_located query limit parsed chosen rfl shallow located
        refine ⟨?_, ?_, fun _ _ => trivial⟩
        · intro asked reply saw info found
          exact bounded _ _ (keeps.called asked reply saw info found).1
        · intro path saw
          rcases keeps.resolving path saw with ⟨nodes, located⟩
          exact bounded path nodes located

theorem keeps_runDocument (application : Application σ) (request : Request) (schema : Schema)
    (query : String) (document : Document) (limit : Int)
    (limited : request.limits.depth = some limit) (parsed : Document.parse query = .ok document)
    (state : σ) :
    (request.runDocument application schema document { state }).world.Keeps
      (request.limitPolicy query limit) := by
  have allowed : ∀ asked, Aside asked → (request.limitPolicy query limit).calls asked := by
    intro asked aside info found
    rw [aside] at found
    cases found
  unfold runDocument
  split
  · exact World.keeps_new _ state
  · next operation chosen =>
      have aside := request.aside_prepare schema document operation
      have kept := fun policy allowed => World.keeps_runAction application
        (request.prepare schema document operation) aside allowed { state }
        (World.keeps_new policy state)
      split
      · next failure world prepared =>
          rw [prepared] at kept
          exact kept _ allowed
      · next errors world prepared =>
          rw [prepared] at kept
          exact kept _ allowed
      · next vars world prepared =>
          rw [prepared] at kept
          have yields := World.yields_of_runAction application
            (request.prepare schema document operation) { state } world
            (by rw [prepared]; exact .refl world)
          rw [prepared] at yields
          exact request.keeps_executeWith application schema query document operation limit vars
            world parsed chosen
            (request.depth_le_of_prepared schema document operation limit limited vars yields) kept

def withDepth (limit : Int) : Request := { limits := { depth := some limit } }

/-- A run within a depth limit resolves no field whose path has more keys than the limit, except
where fragments spread each other in a cycle and the path leads through a fragment within itself. -/
theorem depthLimit_bounds_execution (application : Application σ) (request : Request)
    (schema : Schema) (query : String) (state : σ) (limit : Int)
    (limited : request.limits.depth = some limit) :
    (∀ path, (request.run application schema query { state }).world.Saw (.resolving path) →
        request.Bounded query limit path)
      ∧ ∀ asked reply info,
        (request.run application schema query { state }).world.Saw (.called asked reply) →
        asked.info? = some info → request.Bounded query limit info.path := by
  have keeps : (request.run application schema query { state }).world.Keeps
      (request.limitPolicy query limit) := by
    unfold run
    split
    · exact World.keeps_new _ state
    · split
      · exact World.keeps_new _ state
      · next document parsed =>
          exact request.keeps_runDocument application schema query document limit limited parsed
            state
  exact ⟨fun path saw => keeps.resolving path saw,
    fun asked reply info saw found => keeps.called asked reply saw info found⟩

theorem depthLimit_bounds_two_levels :
    (withDepth 2).limits.depth = some 2
      ∧ (∀ path,
        ((withDepth 2).run Application.countdown Schema.looped "{ a { a } }" { state := 2 }).world.Saw (.resolving path) → (withDepth 2).Bounded "{ a { a } }" 2 path)
      ∧ ∀ asked reply info,
        ((withDepth 2).run Application.countdown Schema.looped "{ a { a } }" { state := 2 }).world.Saw (.called asked reply) →
        asked.info? = some info → (withDepth 2).Bounded "{ a { a } }" 2 info.path :=
  ⟨rfl, depthLimit_bounds_execution Application.countdown (withDepth 2) Schema.looped "{ a { a } }"
    2 2 rfl⟩

set_option maxRecDepth 10000 in
/-- A fragment that spreads itself counts as one level and is executed as many. -/
theorem depthLimit_exceeded_by_cycle :
    (withDepth 1).limits.depth = some 1
      ∧ ∃ asked reply info,
        ((withDepth 1).run Application.countdown Schema.looped
          "{ ...F } fragment F on Query { a { ...F } }" { state := 2 }).world.Saw
            (.called asked reply)
        ∧ asked.info? = some info ∧ ¬ info.path.names.length ≤ 1 := by
  have deep : ((withDepth 1).run Application.countdown Schema.looped
      "{ ...F } fragment F on Query { a { ...F } }" { state := 2 }).world.past.findSome? (fun event =>
        match event.2 with
        | .called asked _ => asked.info?.map fun info => info.path.names.length
        | _ => none) = some 3 := by
    cbv
  rcases List.exists_of_findSome?_eq_some deep with ⟨⟨time, event⟩, member, found⟩
  cases event with
  | called asked reply =>
      rcases Option.map_eq_some_iff.1 found with ⟨info, called, three⟩
      exact ⟨rfl, asked, reply, info, ⟨time, member⟩, called, by omega⟩
  | _ => cases found

end Request

end GraphQL
