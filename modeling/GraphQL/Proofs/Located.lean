import GraphQL.Proofs.Binding
import GraphQL.Proofs.Policy

/-!
Where field nodes come from. Whatever an operation resolves stands at a position of the response, and
the nodes of a position were collected from those of the position around it.
-/

namespace GraphQL

/-- The nodes that stand at a position of the response. The items of a list share the nodes of the
list. -/
inductive Located (setting : Setting) (account : Account) (root : TypeId) :
    ResponsePath → List FieldNode → Prop where
  | field {fields : Collected} {key : String} {nodes : List FieldNode} :
    (setting.scope.collect root setting.environment.operation.selections).Yields account
      (.ok fields) →
    (key, nodes) ∈ fields → nodes ≠ [] →
    Located setting account root (.start (.name key)) nodes
  | item {path : ResponsePath} {nodes : List FieldNode} (index : Int) :
    Located setting account root path nodes →
    Located setting account root (path.extend (.index index)) nodes
  | subfield {path : ResponsePath} {nodes inner : List FieldNode} {type : TypeId}
      {fields : Collected} {key : String} :
    Located setting account root path nodes →
    (setting.scope.collectNodes type nodes).Yields account (.ok fields) →
    (key, inner) ∈ fields → inner ≠ [] →
    Located setting account root (path.extend (.name key)) inner

theorem Located.nodes_ne_nil {setting : Setting} {account : Account} {root : TypeId}
    {path : ResponsePath} {nodes : List FieldNode} (located : Located setting account root path nodes) :
    nodes ≠ [] := by
  induction located with
  | field _ _ some_ => exact some_
  | item _ _ ih => exact ih
  | subfield _ _ _ some_ _ => exact some_

/-- A set of types that completion does not leave. -/
structure Closed (schema : Schema) (known : TypeId → Prop) : Prop where
  field : ∀ parent name field type id, known parent → schema.field? parent name = .ok (some field) →
    field.type = .ok type → type.innermost = .ok id → schema.kindOf id = .object → known id
  possible : ∀ abstract id, schema.isPossible abstract id = .ok true →
    schema.kindOf id = .object → known id

/-- Whether a call resolves a field. -/
def Call.resolves : Call → Bool
  | .resolve .. | .invoke .. => true
  | _ => false

/-- A part of the response that completion does not leave: the positions where values are completed,
and among them those where fields are resolved, with the nodes that stand there. -/
structure Region (setting : Setting) (account : Account) (known : TypeId → Prop) where
  place : ResponsePath → List FieldNode → Prop
  field : ResponsePath → List FieldNode → Prop
  /-- What may be remembered of the selections on an object. -/
  remembers : SubfieldKey → Collected → Prop
  place_of_field : ∀ {path nodes}, field path nodes → place path nodes
  item : ∀ {path nodes} (index : Int), place path nodes → place (path.extend (.index index)) nodes
  collected : ∀ {type key fields}, known type →
    key.type = (setting.schema.definition type).name →
    (setting.scope.collectNodes type key.nodes).Yields account (.ok fields) → remembers key fields
  subfield : ∀ {path key fields name inner}, place path key.nodes → remembers key fields →
    (name, inner) ∈ fields → inner ≠ [] → field (path.extend (.name name)) inner

/-- Calls are made for positions of the region, and fields are resolved where there are some. -/
def Region.policy {setting : Setting} {account : Account} {known : TypeId → Prop}
    (region : Region setting account known) : Policy where
  calls asked := ∀ info, asked.info? = some info → region.place info.path info.nodes
    ∧ (asked.resolves = true → region.field info.path info.nodes)
  effects
    | .resolving path => ∃ nodes, region.field path nodes
    | .remember key fields => region.remembers key fields
    | _ => True

/-- All positions of the response. What is remembered is what nodes select on a known type. -/
def Region.whole (setting : Setting) (account : Account) (root : TypeId) (known : TypeId → Prop) :
    Region setting account known where
  place := Located setting account root
  field := Located setting account root
  remembers key fields := ∃ type, known type ∧ key.type = (setting.schema.definition type).name
    ∧ (setting.scope.collectNodes type key.nodes).Yields account (.ok fields)
  place_of_field located := located
  item index located := .item index located
  collected knownType same yields := ⟨_, knownType, same, yields⟩
  subfield located remembered member some_ := by
    obtain ⟨type, _, _, yields⟩ := remembered
    exact .subfield located yields member some_

/-- What an operation keeps to as a whole. -/
def Setting.policy (setting : Setting) (account : Account) (root : TypeId)
    (known : TypeId → Prop) : Policy :=
  (Region.whole setting account root known).policy

theorem SubfieldKey.equals_nodes (left right : SubfieldKey) (same : left.equals right = true) :
    left.nodes = right.nodes := by
  rw [equals, Bool.and_eq_true] at same
  exact eq_of_sameEach FieldNode.eq_of_same same.2

namespace Program

section

variable {policy : Policy} {account : Account}

theorem obeys_act {α : Type} (action : Action α) (next : Except Failure α → Program)
    (allowed : action.Within policy.calls fun _ => True)
    (each : ∀ result, action.Yields account result → (next result).Obeys policy account) :
    (act action next).Obeys policy account := by
  induction action with
  | done result => exact each result rfl
  | call asked reply ih =>
      simp only [act, Obeys]
      refine ⟨allowed.1, fun answer called => ?_⟩
      exact ih answer (allowed.2 answer fun _ _ => trivial) fun result yields =>
        each result ⟨answer, called, yields⟩

end

variable {setting : Setting} {account : Account} {known : TypeId → Prop}
  {region : Region setting account known}

theorem obeys_closing (tickets : List Nat) (next : Program)
    (obeys : next.Obeys region.policy account) :
    (closing tickets next).Obeys region.policy account := by
  unfold closing
  split
  · exact obeys
  · simp only [Obeys]
    exact ⟨trivial, obeys⟩

theorem obeys_receive (value : Value) (next : Outcome → Program)
    (each : ∀ outcome, (next outcome).Obeys region.policy account) :
    (receive setting value next).Obeys region.policy account := by
  unfold receive
  split
  · split
    · exact obeys_closing _ _ (each _)
    · exact obeys_await _ _ each
  · exact each _

theorem obeys_bubble (first : Failure) (failures : List Failure) :
    (bubble first failures).Obeys region.policy account := by
  induction failures with
  | nil => exact obeys_fail first
  | cons failure rest ih =>
      unfold bubble
      split
      · exact obeys_fail _
      · next same =>
          cases same
          simp only [Obeys]
          exact ⟨trivial, ih⟩
      · exact obeys_fail _

theorem obeys_gathered (build : List Value → Value) (settled : Except Failure (List Outcome)) :
    (gathered build settled).Obeys region.policy account := by
  unfold gathered
  split
  · exact obeys_fail _
  · split
    · exact obeys_succeed _
    · exact obeys_bubble _ _

theorem obeys_settle (type : TypeRef) (nodes : List FieldNode) (path : ResponsePath)
    (outcome : Outcome) :
    (settle type nodes path outcome).Obeys region.policy account := by
  unfold settle
  split
  · exact obeys_succeed _
  · split
    · exact obeys_fail _
    · simp only
      split
      · exact obeys_fail _
      · simp only [Obeys]
        exact ⟨trivial, obeys_succeed _⟩

end Program

theorem Region.calls_aside {setting : Setting} {account : Account} {known : TypeId → Prop}
    (region : Region setting account known) (asked : Call) (aside : asked.info? = none) :
    region.policy.calls asked := by
  intro info found
  rw [aside] at found
  cases found

theorem Region.lenient {setting : Setting} {account : Account} {known : TypeId → Prop}
    (region : Region setting account known) : Lenient region.policy.calls fun _ => True where
  literals _ _ _ := region.calls_aside _ rfl
  response _ _ _ := trivial
  schema _ := trivial
  value _ := trivial
  leaf _ := trivial
  assertion _ := trivial

open Program

variable {setting : Setting} {account : Account} {known : TypeId → Prop}
  {region : Region setting account known}

theorem Slot.obeys_call (slot : Slot) (asked : Nat → Call) (next : Reply → Program)
    (allowed : ∀ id, region.policy.calls (asked id))
    (each : ∀ reply, (next reply).Obeys region.policy account) :
    (slot.call asked next).Obeys region.policy account := by
  cases slot with
  | function id =>
      simp only [call, Obeys]
      exact ⟨allowed id, fun reply _ => each reply⟩
  | other value => exact each _
  | absent => exact each _

namespace RuntimeType

theorem obeys_decideDeferred (deferred : List (TypeId × Nat))
    (next : Except Failure (Option TypeId) → Program)
    (each : ∀ result, (next result).Obeys region.policy account) :
    (decideDeferred setting deferred next).Obeys region.policy account := by
  unfold decideDeferred
  simp only
  split
  · exact each _
  · split
    · exact obeys_closing _ _ (each _)
    · simp only [Obeys]
      intro result
      cases result with
      | ok values => exact each _
      | error failure => exact each _

theorem obeys_askTypes (info : Info) (value : Value)
    (located : region.place info.path info.nodes)
    (next : Except Failure (Option TypeId) → Program)
    (each : ∀ result, (next result).Obeys region.policy account)
    (tests : List (TypeId × Slot)) (deferred : List (TypeId × Nat)) :
    (askTypes setting info value next tests deferred).Obeys region.policy account := by
  induction tests generalizing deferred with
  | nil => exact obeys_decideDeferred deferred next each
  | cons test rest ih =>
      obtain ⟨type, slot⟩ := test
      unfold askTypes
      refine Slot.obeys_call slot _ _ (fun id other found => ?_) fun reply => ?_
      · cases found
        exact ⟨located, fun resolves => by cases resolves⟩
      · split
        · exact each _
        · exact ih _
        · split
          · exact obeys_closing _ _ (each _)
          · exact ih _

theorem obeys_answered (next : Outcome → Program)
    (each : ∀ outcome, (next outcome).Obeys region.policy account)
    (reply : Reply) :
    (match reply with
      | .ok found => receive setting found next
      | .error failure => next (.error failure)).Obeys region.policy account := by
  cases reply with
  | ok found => exact obeys_receive found next each
  | error failure => exact each _

theorem obeys_find (info : Info) (abstract : TypeId) (value : Value)
    (located : region.place info.path info.nodes) (next : Outcome → Program)
    (each : ∀ outcome, (next outcome).Obeys region.policy account) :
    (find setting info abstract value next).Obeys region.policy account := by
  have allowed : ∀ id abstract, region.policy.calls
      (.resolveType id abstract value info) := by
    intro id abstract other found
    cases found
    exact ⟨located, fun resolves => by cases resolves⟩
  unfold find
  simp only
  split
  · exact Slot.obeys_call _ _ _ (fun id => allowed id _) (obeys_answered next each)
  · split
    · simp only [Obeys]
      exact ⟨allowed _ _, fun reply _ => obeys_answered next each reply⟩
    · unfold byDefault
      split
      · exact each _
      · split
        · exact each _
        · refine obeys_askTypes info value located _ (fun result => ?_) _ _
          cases result with
          | ok found =>
              cases found with
              | some type => exact each _
              | none => exact each _
          | error failure => exact each _

theorem possible_of_check (info : Info) (abstract : TypeId) (value found : Value) (id : TypeId)
    (checked : check setting info abstract value found = .ok id) :
    setting.schema.isPossible abstract id = .ok true ∧ setting.schema.kindOf id = .object := by
  unfold check at checked
  simp only [bind, Except.bind] at checked
  split at checked
  · cases checked
  · split at checked
    · cases checked
    · split at checked
      · cases checked
      · split at checked
        · cases checked
        · next _ other named _ possible holds =>
            have object : setting.schema.kindOf other = .object := by
              have kept := Option.filter_eq_some_iff.1 named
              simpa using kept.2
            split at checked
            · next yes =>
                cases checked
                refine ⟨?_, object⟩
                cases result : setting.schema.isPossible abstract id with
                | error fault =>
                    rw [result] at holds
                    cases holds
                | ok answer =>
                    rw [result] at holds
                    cases holds
                    rw [yes]
            · cases checked

theorem failsWell_check {calls : Call → Prop} {good : Failure → Prop} {types : TypeRef → Prop}
    (selects : setting.schema.Selects calls good types) (info : Info) (abstract : TypeId)
    (value found : Value) : Except.FailsWell good (check setting info abstract value found) := by
  have refuse : ∀ found, good (problem found info) := fun _ => selects.mild.response _ rfl rfl
  intro failure failed
  unfold check at failed
  simp only [bind, Except.bind] at failed
  split at failed
  · cases failed
    exact refuse _
  · split at failed
    · next denotes =>
        cases failed
        unfold denoted at denotes
        split at denotes
        · split at denotes
          · next broken =>
              cases denotes
              exact selects.named _ _ broken
          · cases denotes
            exact refuse _
          · cases denotes
        · cases denotes
    · split at failed
      · cases failed
        exact refuse _
      · next id _ =>
          cases possible : setting.schema.isPossible abstract id with
          | error fault =>
              rw [possible] at failed
              cases failed
              exact selects.possible abstract id fault possible
          | ok answer =>
              rw [possible] at failed
              cases answer with
              | true => cases failed
              | false =>
                  cases failed
                  exact refuse _

end RuntimeType

/-- Execution of the selections on objects of known types keeps to the policy. -/
def BelowObeys (region : Region setting account known) (below : Completion.Subfields) : Prop :=
  ∀ type value path fields, known type →
    (∀ key nodes, (key, nodes) ∈ fields → nodes ≠ [] →
      region.field (path.extend (.name key)) nodes) →
    (below type value path fields).Obeys region.policy account

namespace Completion

theorem obeys_leaf (type : TypeId) (value : Value) :
    (leaf setting type value).Obeys region.policy account := by
  unfold leaf
  refine obeys_act _ _ (region.lenient.within_serialize (fun _ _ => region.calls_aside _ rfl) _ _ _) ?_
  intro result _
  split
  · exact obeys_fail _
  · exact obeys_await _ _ fun outcome => by simp only [Obeys]
  · split
    · exact obeys_fail _
    · exact obeys_succeed _

theorem obeys_executeSubfields {below : Subfields}
    (obeys : BelowObeys region below) (info : Info) (type : TypeId)
    (path : ResponsePath) (value : Value) (knownType : known type)
    (located : region.place path info.nodes) :
    (executeSubfields setting below info type path value).Obeys
      region.policy account := by
  have go : ∀ key fields, key.nodes = info.nodes → region.remembers key fields →
      (below type value path fields).Obeys region.policy account := by
    intro key fields same remembered
    refine obeys type value path fields knownType fun name inner member some_ => ?_
    rw [← same] at located
    exact region.subfield located remembered member some_
  simp only [executeSubfields, subfields, Obeys]
  intro found remembered
  cases found with
  | some fields =>
      rcases remembered fields rfl with ⟨key, inside, same⟩
      exact go key fields (SubfieldKey.equals_nodes _ _ same) inside
  | none =>
      refine obeys_act _ _ (region.lenient.within_collectNodes _ _ _) ?_
      intro result yields
      cases result with
      | ok fields =>
          have inside : region.remembers ⟨(setting.schema.definition type).name, info.nodes⟩ fields :=
            region.collected knownType rfl yields
          simp only [Obeys]
          exact ⟨inside, go _ fields rfl inside⟩
      | error failure => exact obeys_fail _

theorem obeys_object {below : Subfields} (obeys : BelowObeys region below)
    (info : Info) (type : TypeId) (path : ResponsePath) (value : Value) (knownType : known type)
    (field : region.place info.path info.nodes)
    (located : region.place path info.nodes) :
    (object setting below info type path value).Obeys region.policy account := by
  have execute := obeys_executeSubfields obeys info type path value knownType located
  unfold object
  simp only
  split
  · exact execute
  · refine Slot.obeys_call _ _ _ (fun id other found => ?_) fun reply => ?_
    · cases found
      exact ⟨field, fun resolves => by cases resolves⟩
    · refine obeys_onSuccess _ _ fun result => obeys_receive _ _ fun outcome => ?_
      refine obeys_onSuccess _ _ fun holds => ?_
      split
      · exact execute
      · exact obeys_fail _

theorem obeys_abstract {below : Subfields} (closed : Closed setting.schema known)
    (obeys : BelowObeys region below) (info : Info) (type : TypeId)
    (path : ResponsePath) (value : Value)
    (field : region.place info.path info.nodes)
    (located : region.place path info.nodes) :
    (abstract setting below info type path value).Obeys region.policy account := by
  unfold abstract
  refine RuntimeType.obeys_find info type value field _ fun outcome => ?_
  refine obeys_onSuccess _ _ fun found => ?_
  split
  · next id checked =>
      have possible := RuntimeType.possible_of_check info type value found id checked
      exact obeys_object obeys info id path value (closed.possible type id possible.1 possible.2)
        field located
  · exact obeys_fail _

theorem obeys_named {below : Subfields} (closed : Closed setting.schema known)
    (obeys : BelowObeys region below) (info : Info) (type : TypeId)
    (path : ResponsePath) (value : Value)
    (knownType : setting.schema.kindOf type = .object → known type)
    (field : region.place info.path info.nodes)
    (located : region.place path info.nodes) :
    (named setting below info type path value).Obeys region.policy account := by
  unfold named
  split
  · exact obeys_leaf _ _
  · exact obeys_leaf _ _
  · exact obeys_abstract closed obeys info type path value field located
  · exact obeys_abstract closed obeys info type path value field located
  · next kind => exact obeys_object obeys info type path value (knownType kind) field located
  · exact obeys_fail _

theorem obeys_items (info : Info) (type : TypeRef) (path : ResponsePath)
    (complete : ResponsePath → Value → Program)
    (each : ∀ (index : Int) value, (complete (path.extend (.index index)) value).Obeys
      region.policy account) (values : List Value) :
    (items setting info type path complete values).Obeys region.policy account := by
  unfold items
  simp only
  split
  · exact obeys_fail _
  · simp only [Obeys, obeyEach_iff, List.mem_map]
    refine ⟨trivial, ?_, fun settled => obeys_gathered _ _⟩
    rintro program ⟨⟨item, index⟩, _, rfl⟩
    refine obeys_andThen _ _ (obeys_receive _ _ fun outcome => ?_) fun outcome => ?_
    · exact obeys_onSuccess _ _ fun value => each index value
    · exact obeys_settle _ _ _ _

theorem obeys_list (info : Info) (type : TypeRef) (path : ResponsePath)
    (complete : ResponsePath → Value → Program)
    (each : ∀ (index : Int) value, (complete (path.extend (.index index)) value).Obeys
      region.policy account) (value : Value) :
    (list setting info type path complete value).Obeys region.policy account := by
  unfold list
  split
  · simp only [Obeys]
    intro values fault
    split
    · exact obeys_items info type path complete each values
    · split
      · exact obeys_fail _
      · exact obeys_closing _ _ (obeys_fail _)
  · split
    · exact obeys_items info type path complete each _
    · exact obeys_fail _

theorem obeys_complete {below : Subfields} (closed : Closed setting.schema known)
    (obeys : BelowObeys region below) (info : Info) (type : TypeRef)
    (path : ResponsePath) (value : Value)
    (knownType : ∀ id, type.innermost = .ok id → setting.schema.kindOf id = .object → known id)
    (field : region.place info.path info.nodes)
    (located : region.place path info.nodes) :
    (complete setting below info type path value).Obeys region.policy account := by
  induction type generalizing path value with
  | named id =>
      unfold complete
      split
      · exact obeys_fail _
      · simp only
        split
        · exact obeys_succeed _
        · exact obeys_named closed obeys info id path value (knownType id rfl) field located
  | list of ih =>
      unfold complete
      split
      · exact obeys_fail _
      · simp only
        split
        · exact obeys_succeed _
        · exact obeys_list info of path _
            (fun index item => ih _ item knownType (region.item index located)) value
  | nonNull of ih =>
      unfold complete
      split
      · exact obeys_fail _
      · refine obeys_andThen _ _ (ih path value knownType located) fun outcome => ?_
        refine obeys_onSuccess _ _ fun completed => ?_
        split
        · exact obeys_fail _
        · exact obeys_succeed _
  | broken fault =>
      unfold complete
      split
      · exact obeys_fail _
      · exact obeys_fail _

end Completion

namespace Execution

theorem obeys_resolve (field : Field) (source arguments : Value) (info : Info)
    (located : region.field info.path info.nodes) (next : Reply → Program)
    (each : ∀ reply, (next reply).Obeys region.policy account) :
    (resolve setting field source arguments info next).Obeys region.policy account := by
  have allowed : ∀ asked : Call, asked.info? = some info →
      region.policy.calls asked := by
    intro asked same other found
    rw [same] at found
    cases found
    exact ⟨region.place_of_field located, fun _ => located⟩
  unfold resolve
  split
  · exact each _
  · split
    · exact Slot.obeys_call _ _ _ (fun id => allowed _ rfl) each
    · split
      · simp only [Obeys]
        exact ⟨allowed _ rfl, fun reply _ => each reply⟩
      · unfold resolveByName
        split
        · simp only [Obeys]
          exact ⟨allowed _ rfl, fun reply _ => each reply⟩
        · exact each _
        · exact each _

theorem obeys_fieldValue {below : Completion.Subfields} (closed : Closed setting.schema known)
    (obeys : BelowObeys region below) (field : Field) (type : TypeRef)
    (source : Value) (info : Info) (node : FieldNode)
    (knownType : ∀ id, type.innermost = .ok id → setting.schema.kindOf id = .object → known id)
    (located : region.field info.path info.nodes) :
    (fieldValue setting below field type source info node).Obeys region.policy account := by
  unfold fieldValue
  refine obeys_act _ _ (region.lenient.within_arguments _ _ _ _ _) ?_
  intro result _
  cases result with
  | error failure => exact obeys_fail _
  | ok bound =>
      simp only [Obeys]
      refine ⟨⟨info.nodes, located⟩, obeys_resolve field source _ info located _ fun reply => ?_⟩
      refine obeys_onSuccess _ _ fun value => ?_
      simp only [Obeys]
      refine ⟨trivial, obeys_receive _ _ fun outcome => ?_⟩
      refine obeys_onSuccess _ _ fun received => ?_
      exact Completion.obeys_complete closed obeys info type info.path received knownType
        (region.place_of_field located) (region.place_of_field located)

theorem obeys_field? {below : Completion.Subfields} (closed : Closed setting.schema known)
    (obeys : BelowObeys region below) (parent : TypeId) (source : Value)
    (path : ResponsePath) (nodes : List FieldNode) (knownParent : known parent)
    (located : nodes ≠ [] → region.field path nodes) (program : Program)
    (found : field? setting below parent source path nodes = some program) :
    program.Obeys region.policy account := by
  unfold field? at found
  rw [Option.bind_eq_some_iff] at found
  rcases found with ⟨node, first, found⟩
  have some_ : nodes ≠ [] := by
    rintro rfl
    cases first
  split at found
  · cases found
    exact obeys_fail _
  · cases found
  · next field declared =>
      split at found
      · cases found
        exact obeys_fail _
      · next type typed =>
          cases found
          refine obeys_andThen _ _ ?_ fun outcome => obeys_settle _ _ _ _
          exact obeys_fieldValue closed obeys field type source _ node
            (fun id => closed.field parent node.name field type id knownParent declared typed)
            (located some_)

/-- Collected nodes that stand at the positions of their keys. -/
def LocatedFields (region : Region setting account known) (path : Option ResponsePath)
    (fields : Collected) : Prop :=
  ∀ key nodes, (key, nodes) ∈ fields → nodes ≠ [] → region.field (.add path (.name key)) nodes

theorem obeys_fieldPrograms {below : Completion.Subfields} (closed : Closed setting.schema known)
    (obeys : BelowObeys region below) (parent : TypeId) (source : Value)
    (path : Option ResponsePath) (fields : Collected) (knownParent : known parent)
    (located : LocatedFields region path fields) :
    ∀ entry ∈ fieldPrograms setting below parent source path fields,
      entry.2.Obeys region.policy account := by
  intro entry member
  rcases List.mem_filterMap.1 member with ⟨⟨key, nodes⟩, inside, made⟩
  rw [Option.map_eq_some_iff] at made
  rcases made with ⟨program, found, rfl⟩
  exact obeys_field? closed obeys parent source _ nodes knownParent (located key nodes inside)
    program found

theorem obeys_fields (closed : Closed setting.schema known) (levels : Nat) (parent : TypeId)
    (source : Value) (path : Option ResponsePath) (collected : Collected)
    (knownParent : known parent) (located : LocatedFields region path collected) :
    (fields setting levels parent source path collected).Obeys region.policy account := by
  induction levels generalizing parent source path collected with
  | zero => exact obeys_fail _
  | succ levels ih =>
      have below : BelowObeys region fun type value place selected =>
          fields setting levels type value (some place) selected :=
        fun type value place selected knownType inside =>
          ih type value (some place) selected knownType inside
      have programs := obeys_fieldPrograms closed below parent source path collected knownParent
        located
      simp only [fields, Obeys, obeyEach_iff, List.mem_map]
      refine ⟨?_, fun settled => obeys_gathered _ _⟩
      rintro program ⟨entry, member, rfl⟩
      exact programs entry member

theorem obeys_inTurn (next : Except Failure (List Outcome) → Program)
    (each : ∀ settled, (next settled).Obeys region.policy account)
    (programs : List Program) (settled : List Outcome)
    (obeys : ∀ program ∈ programs, program.Obeys region.policy account) :
    (inTurn next programs settled).Obeys region.policy account := by
  induction programs generalizing settled with
  | nil => exact each _
  | cons program rest ih =>
      have later := fun settled => ih settled fun other member =>
        obeys other (List.mem_cons_of_mem _ member)
      refine obeys_andThen _ _ (obeys program List.mem_cons_self) fun outcome => ?_
      split
      · exact later _
      · exact each _
      · exact later _

/-- Whatever an operation does, it does for positions of the response. -/
theorem obeys_operationIn (closed : Closed setting.schema known) (order : RootOrder)
    (knownRoot : known root) :
    (operationIn setting order root).Obeys (setting.policy account root known) account := by
  unfold operationIn
  refine obeys_andThen _ _ ?_ fun outcome => ?_
  · have lenient := (Region.whole setting account root known).lenient
    refine obeys_act _ _ (lenient.within_collect _ _ _) ?_
    intro result yields
    cases result with
    | error failure => exact obeys_fail _
    | ok collected =>
        have located : LocatedFields (Region.whole setting account root known) none collected :=
          fun key nodes member some_ => .field yields member some_
        cases order with
        | sideBySide => exact obeys_fields closed _ root _ none collected knownRoot located
        | inTurn =>
            refine obeys_inTurn _ (fun settled => obeys_gathered _ _) _ _ fun program member => ?_
            rcases List.mem_map.1 member with ⟨entry, inside, rfl⟩
            exact obeys_fieldPrograms closed
              (fun type value place selected knownType inside =>
                obeys_fields closed _ type value (some place) selected knownType inside)
              root _ none collected knownRoot located entry inside
  · unfold settleRoot
    split
    · simp only [Obeys]
      exact ⟨trivial, obeys_succeed _⟩
    · simp only [Obeys]

end Execution

end GraphQL
