import GraphQL.Proofs.Parallel

/-!
Executing documents with and without spreads. An operation goes in parallel with the same operation in
which inline fragments stand in the place of all spreads: at each position of the response the same
field is resolved with the same arguments, from nodes of which some may be repeated.
-/

namespace GraphQL

/-- The environment without spreads. -/
def Environment.inlined (environment : Environment) : Environment :=
  { environment with
    fragments := environment.fragments.map (·.inlined environment.fragments)
    operation := environment.operation.inlined environment.fragments }

def Setting.inlined (setting : Setting) : Setting :=
  { setting with environment := setting.environment.inlined }

/-- What is learned about the same field where nothing is spread, from other nodes. -/
def Info.inlined (info : Info) (nodes : List FieldNode) : Info :=
  { info with environment := info.environment.inlined, nodes }

/-- The environment for one who does not read the selections of the query. -/
def Environment.unread (environment : Environment) : Environment :=
  { environment with
    fragments := environment.fragments.map fun fragment => { fragment with selections := [] }
    operation := { environment.operation with selections := [] } }

/-- What a resolver learns that does not read the query. -/
def Info.unread (info : Info) : Info :=
  { info with environment := info.environment.unread, nodes := [] }

/-- The call as it reaches one who does not read the query. -/
def Call.unread : Call → Call
  | resolve function source arguments info => resolve function source arguments info.unread
  | invoke handle arguments info => invoke handle arguments info.unread
  | resolveType function abstract value info => resolveType function abstract value info.unread
  | isTypeOf function type value info => isTypeOf function type value info.unread
  | other => other

/-- The application does not inspect the nodes of the query. -/
def Blind (answer : Call → Reply) : Prop :=
  ∀ asked other : Call, asked.unread = other.unread → answer asked = answer other

theorem Info.unread_inlined (info : Info) (nodes : List FieldNode) :
    (info.inlined nodes).unread = info.unread := by
  simp only [unread, inlined, Environment.unread, Environment.inlined, List.map_map]
  rfl

/-- What is remembered is what nodes select on a known type. -/
def Setting.Remembers (setting : Setting) (known : TypeId → Prop) (answer : Call → Reply)
    (key : SubfieldKey) (fields : Collected) : Prop :=
  ∃ type, known type ∧ key.type = (setting.schema.definition type).name
    ∧ (setting.scope.collectNodes type key.nodes).result answer = .ok fields

/-- An operation can be carried out with and without spreads. -/
structure Setting.Pairs (setting : Setting) (known : TypeId → Prop) (rank : String → Nat)
    (pairing : Pairing) : Prop where
  sound : Sound setting.schema known
  grounded : setting.scope.Grounded pairing.answer rank
  blind : Blind pairing.answer
  left : pairing.left = setting.Remembers known pairing.answer
  right : pairing.right = setting.inlined.Remembers known pairing.answer

namespace Program

variable {pairing : Pairing}

theorem parallel_call (blind : Blind pairing.answer) {asked other : Call}
    (same : asked.unread = other.unread) {next next' : Reply → Program}
    (each : ∀ reply, (next reply).Parallel pairing (next' reply)) :
    (call asked next).Parallel pairing (call other next') := by
  refine .call_left (.call_right ?_)
  rw [blind asked other same]
  exact each _

theorem parallel_slot (blind : Blind pairing.answer) (slot : Slot) {asked other : Nat → Call}
    (same : ∀ id, (asked id).unread = (other id).unread) {next next' : Reply → Program}
    (each : ∀ reply, (next reply).Parallel pairing (next' reply)) :
    (slot.call asked next).Parallel pairing (slot.call other next') := by
  cases slot with
  | function id => exact parallel_call blind (same id) each
  | other value => exact each _
  | absent => exact each _

end Program

open Program

section

variable {setting : Setting} {known : TypeId → Prop} {rank : String → Nat} {pairing : Pairing}

namespace RuntimeType

theorem parallel_decideDeferred (deferred : List (TypeId × Nat))
    {next next' : Except Failure (Option TypeId) → Program}
    (each : ∀ found, (next found).Parallel pairing (next' found)) :
    (decideDeferred setting deferred next).Parallel pairing
      (decideDeferred setting.inlined deferred next') := by
  cases deferred with
  | nil => exact each _
  | cons first rest =>
      have alike : setting.inlined.synchronous = setting.synchronous := rfl
      simp only [decideDeferred, List.isEmpty_cons, Bool.false_eq_true, if_false, alike]
      split
      · exact parallel_closing _ (each _)
      · rw [List.map_cons, List.eraseDups_cons]
        exact .wait

theorem parallel_askTypes (blind : Blind pairing.answer) (info : Info) (others : List FieldNode)
    (value : Value) {next next' : Except Failure (Option TypeId) → Program}
    (each : ∀ found, (next found).Parallel pairing (next' found)) (types : List (TypeId × Slot))
    (deferred : List (TypeId × Nat)) :
    (askTypes setting info value next types deferred).Parallel pairing
      (askTypes setting.inlined (info.inlined others) value next' types deferred) := by
  induction types generalizing deferred with
  | nil => exact parallel_decideDeferred deferred each
  | cons entry rest ih =>
      obtain ⟨type, test⟩ := entry
      refine parallel_slot blind test (fun id => ?_) fun reply => ?_
      · rw [Call.unread, Call.unread, Info.unread_inlined]
      · cases reply with
        | error failure => exact each _
        | ok result =>
            cases result with
            | deferred ticket => exact ih _
            | _ =>
                dsimp only
                split
                · exact parallel_closing _ (each _)
                · exact ih _

theorem parallel_byDefault (blind : Blind pairing.answer) (info : Info) (others : List FieldNode)
    (abstract : TypeId) (value : Value) {next next' : Outcome → Program}
    (each : ∀ outcome, (next outcome).Parallel pairing (next' outcome)) :
    (byDefault setting info abstract value next).Parallel pairing
      (byDefault setting.inlined (info.inlined others) abstract value next') := by
  have alike : setting.inlined.schema = setting.schema := rfl
  unfold byDefault
  rw [alike]
  split
  · exact each _
  · split
    · exact each _
    · refine parallel_askTypes blind info others value (fun found => ?_) _ _
      cases found with
      | error failure => exact each _
      | ok found => cases found <;> exact each _

theorem parallel_find (blind : Blind pairing.answer) (info : Info) (others : List FieldNode)
    (abstract : TypeId) (value : Value) {next next' : Outcome → Program}
    (each : ∀ outcome, (next outcome).Parallel pairing (next' outcome)) :
    (find setting info abstract value next).Parallel pairing
      (find setting.inlined (info.inlined others) abstract value next') := by
  have alike : setting.inlined.schema = setting.schema := rfl
  have resolver : setting.inlined.environment.typeResolver = setting.environment.typeResolver := rfl
  unfold find
  rw [alike, resolver]
  dsimp only
  split
  · refine parallel_slot blind _ (fun id => ?_) fun reply => ?_
    · rw [Call.unread, Call.unread, Info.unread_inlined]
    · cases reply with
      | ok found => exact parallel_receive rfl found each
      | error failure => exact each _
  · split
    · refine parallel_call blind (by rw [Call.unread, Call.unread, Info.unread_inlined]) fun reply => ?_
      cases reply with
      | ok found => exact parallel_receive rfl found each
      | error failure => exact each _
    · exact parallel_byDefault blind info others abstract value each

theorem corresponds_problem {α : Type} (info : Info) (others : List FieldNode)
    (found : CompletionProblem) :
    Corresponds (Eq (α := α)) (.error (problem found info))
      (.error (problem found (info.inlined others))) :=
  .error rfl

theorem corresponds_denoted (info : Info) (others : List FieldNode) (abstract : String)
    (found : Value) :
    Corresponds Eq (denoted setting info abstract found)
      (denoted setting.inlined (info.inlined others) abstract found) := by
  have alike : setting.inlined.schema = setting.schema := rfl
  unfold denoted
  rw [alike]
  split
  · split
    · exact .refl _
    · exact corresponds_problem info others _
    · exact .refl _
  · exact .refl _

theorem corresponds_check (info : Info) (others : List FieldNode) (abstract : TypeId)
    (value found : Value) :
    Corresponds Eq (check setting info abstract value found)
      (check setting.inlined (info.inlined others) abstract value found) := by
  have alike : setting.inlined.schema = setting.schema := rfl
  unfold check
  rw [alike]
  by_cases empty : found.isNull
  · rw [empty]
    exact corresponds_problem info others _
  · rw [Bool.not_eq_true] at empty
    rw [empty]
    refine (corresponds_denoted info others _ found).bind fun candidate _ same => ?_
    subst same
    split
    · exact corresponds_problem info others _
    · refine (Corresponds.refl _).bind fun possible _ same => ?_
      subst same
      split
      · exact .refl _
      · exact corresponds_problem info others _

end RuntimeType

/-- Objects that nest no deeper than a number of levels have their selections executed in parallel. -/
def BelowParallel (setting : Setting) (known : TypeId → Prop) (rank : String → Nat)
    (pairing : Pairing) (depth : Nat) (below below' : Completion.Subfields) : Prop :=
  ∀ type value path fields others, known type →
    setting.scope.Merges pairing.answer rank fields others →
    (∀ entry ∈ others, ∀ node ∈ entry.2, node.selection.depth (fun _ => 0) ≤ depth) →
    (below type value path fields).Parallel pairing (below' type value path others)

/-- Nodes that stand for a field with and without spreads, the latter with selections of a limited
depth. -/
structure Twins (setting : Setting) (rank : String → Nat) (pairing : Pairing) (depth : Nat)
    (nodes others : List FieldNode) : Prop where
  repeats : setting.scope.Repeats pairing.answer rank nodes others
  shallow : ∀ node ∈ others, Selection.depthOfAll (fun _ => 0) node.selections ≤ depth

namespace Completion

variable {below below' : Subfields} {depth : Nat} {info : Info} {others : List FieldNode}

theorem parallel_leaf (type : TypeId) (value : Value) :
    (leaf setting type value).Parallel pairing (leaf setting.inlined type value) := by
  refine parallel_act_self _ fun result => ?_
  split
  · exact parallel_fail rfl
  · exact parallel_await _ _ _
  · split
    · exact parallel_fail rfl
    · exact parallel_succeed _

/-- What is remembered of the selections on a type is what is selected on it. -/
theorem parallel_subfields_left {setting : Setting} (sound : Sound setting.schema known)
    {pairing : Pairing} (remembers : pairing.left = setting.Remembers known pairing.answer)
    (type : TypeId) (knownType : known type) (nodes : List FieldNode)
    (next : Except Failure Collected → Program) {other : Program}
    (parallel : (next ((setting.scope.collectNodes type nodes).result pairing.answer)).Parallel pairing
      other) :
    (subfields setting type nodes next).Parallel pairing other := by
  refine .consult_left fun found recalls => ?_
  cases found with
  | some fields =>
      obtain ⟨key, equal, remembered⟩ := recalls fields rfl
      rw [remembers] at remembered
      obtain ⟨type', knownType', named, collected⟩ := remembered
      have same := sound.distinct type' type knownType' knownType (by
        rw [← named]
        exact (Bool.and_eq_true_iff.1 equal).1)
      rw [same, SubfieldKey.equals_nodes _ _ equal] at collected
      rw [collected] at parallel
      exact parallel
  | none =>
      refine parallel_act_left _ _ ?_
      cases collected : (setting.scope.collectNodes type nodes).result pairing.answer with
      | error failure =>
          rw [collected] at parallel
          exact parallel
      | ok fields =>
          rw [collected] at parallel
          refine .perform_left ?_ parallel
          rw [Effect.Quiet, remembers]
          exact ⟨type, knownType, rfl, collected⟩

theorem parallel_executeSubfields (pairs : setting.Pairs known rank pairing)
    (inside : BelowParallel setting known rank pairing depth below below')
    (twins : Twins setting rank pairing depth info.nodes others) (type : TypeId)
    (knownType : known type) (path : ResponsePath) (value : Value) :
    (executeSubfields setting below info type path value).Parallel pairing
      (executeSubfields setting.inlined below' (info.inlined others) type path value) := by
  have collects : setting.scope.Collects pairing.answer rank depth
      ((setting.scope.collectNodes type info.nodes).result pairing.answer)
      ((setting.inlined.scope.collectNodes type others).result pairing.answer) :=
    Scope.collects_collectNodes pairs.grounded _ twins.repeats twins.shallow
  refine parallel_subfields_left pairs.sound pairs.left type knownType _ _ ?_
  suffices swapped : (subfields setting.inlined type (info.inlined others).nodes _).Parallel pairing.swap
      _ from swapped.swap
  have sound : Sound setting.inlined.schema known := pairs.sound
  have remembers : pairing.swap.left = setting.inlined.Remembers known pairing.swap.answer := pairs.right
  refine parallel_subfields_left sound remembers type knownType _ _ (Parallel.swap ?_)
  have nodes : (info.inlined others).nodes = others := rfl
  have answers : pairing.swap.answer = pairing.answer := rfl
  rw [nodes, answers]
  generalize (setting.scope.collectNodes type info.nodes).result pairing.answer = left at collects ⊢
  generalize (setting.inlined.scope.collectNodes type others).result pairing.answer = right at collects ⊢
  cases collects with
  | failed failure => exact parallel_fail rfl
  | found merges shallow => exact inside type value path _ _ knownType merges shallow

theorem parallel_object (pairs : setting.Pairs known rank pairing)
    (inside : BelowParallel setting known rank pairing depth below below')
    (twins : Twins setting rank pairing depth info.nodes others) (type : TypeId)
    (knownType : known type) (path : ResponsePath) (value : Value) :
    (object setting below info type path value).Parallel pairing
      (object setting.inlined below' (info.inlined others) type path value) := by
  have execute := parallel_executeSubfields pairs inside twins type knownType path value
  have alike : setting.inlined.schema = setting.schema := rfl
  unfold object
  rw [alike]
  dsimp only
  split
  · exact execute
  · refine parallel_slot pairs.blind _ (fun id => ?_) fun reply => ?_
    · rw [Call.unread, Call.unread, Info.unread_inlined]
    · refine parallel_onSuccess (fun result => ?_) (.refl reply)
      refine parallel_receive rfl result fun outcome => ?_
      refine parallel_onSuccess (fun holds => ?_) (.refl outcome)
      split
      · exact execute
      · exact parallel_fail rfl

theorem parallel_abstract (pairs : setting.Pairs known rank pairing)
    (inside : BelowParallel setting known rank pairing depth below below')
    (twins : Twins setting rank pairing depth info.nodes others) (type : TypeId)
    (path : ResponsePath) (value : Value) :
    (abstract setting below info type path value).Parallel pairing
      (abstract setting.inlined below' (info.inlined others) type path value) := by
  unfold abstract
  refine RuntimeType.parallel_find pairs.blind info others type value fun outcome => ?_
  refine parallel_onSuccess (fun found => ?_) (.refl outcome)
  have same : Corresponds Eq (RuntimeType.check setting info type value found)
      (RuntimeType.check setting.inlined (info.inlined others) type value found) :=
    RuntimeType.corresponds_check info others type value found
  have possible : ∀ id, RuntimeType.check setting info type value found = .ok id → known id := by
    intro id checked
    obtain ⟨possible, object⟩ := RuntimeType.possible_of_check info type value found id checked
    exact pairs.sound.possible type id possible object
  generalize RuntimeType.check setting info type value found = checked at same possible ⊢
  generalize RuntimeType.check setting.inlined (info.inlined others) type value found = checked' at same ⊢
  cases same with
  | @ok id _ same =>
      subst same
      exact parallel_object pairs inside twins id (possible id rfl) path value
  | error same => exact parallel_fail same

theorem parallel_named (pairs : setting.Pairs known rank pairing)
    (inside : BelowParallel setting known rank pairing depth below below')
    (twins : Twins setting rank pairing depth info.nodes others) (type : TypeId)
    (knownType : setting.schema.kindOf type = .object → known type) (path : ResponsePath)
    (value : Value) :
    (named setting below info type path value).Parallel pairing
      (named setting.inlined below' (info.inlined others) type path value) := by
  have alike : setting.inlined.schema = setting.schema := rfl
  unfold named
  rw [alike]
  split
  · exact parallel_leaf type value
  · exact parallel_leaf type value
  · exact parallel_abstract pairs inside twins type path value
  · exact parallel_abstract pairs inside twins type path value
  · next kind => exact parallel_object pairs inside twins type (knownType kind) path value
  · exact parallel_fail rfl

theorem parallel_items (type : TypeRef) (path : ResponsePath)
    {complete complete' : ResponsePath → Value → Program}
    (each : ∀ place value, (complete place value).Parallel pairing (complete' place value))
    (values : List Value) :
    (items setting info type path complete values).Parallel pairing
      (items setting.inlined (info.inlined others) type path complete' values) := by
  have positions : List.Forall₂ (Program.Parallel pairing)
      (values.zipIdx.map fun entry =>
        (Program.receive setting entry.1
          (.onSuccess (complete (path.extend (.index entry.2))))).andThen
          (settle type info.nodes (path.extend (.index entry.2))))
      (values.zipIdx.map fun entry =>
        (Program.receive setting.inlined entry.1
          (.onSuccess (complete' (path.extend (.index entry.2))))).andThen
          (settle type others (path.extend (.index entry.2)))) := by
    rw [List.forall₂_map_left_iff, List.forall₂_map_right_iff, List.forall₂_same]
    intro entry _
    refine Parallel.andThen (parallel_receive rfl entry.1 fun outcome => ?_)
      fun outcome outcome' same => ?_
    · exact parallel_onSuccess (fun value => each _ value) (.refl outcome)
    · exact parallel_settle type info.nodes others _ same
  cases type with
  | broken fault => exact parallel_fail rfl
  | _ => exact .perform_left trivial (.perform_right trivial (parallel_join .list positions))

theorem parallel_list (type : TypeRef) (path : ResponsePath)
    {complete complete' : ResponsePath → Value → Program}
    (each : ∀ place value, (complete place value).Parallel pairing (complete' place value))
    (value : Value) :
    (list setting info type path complete value).Parallel pairing
      (list setting.inlined (info.inlined others) type path complete' value) := by
  unfold list
  split
  · refine .drain_left (.drain_right ?_)
    split
    · exact parallel_items type path each _
    · split
      · exact parallel_fail rfl
      · exact parallel_closing _ (parallel_fail rfl)
  · split
    · exact parallel_items type path each _
    · exact parallel_fail rfl

theorem parallel_complete (pairs : setting.Pairs known rank pairing)
    (inside : BelowParallel setting known rank pairing depth below below')
    (twins : Twins setting rank pairing depth info.nodes others) (type : TypeRef)
    (knownType : ∀ id, type.innermost = .ok id → setting.schema.kindOf id = .object → known id)
    (path : ResponsePath) (value : Value) :
    (complete setting below info type path value).Parallel pairing
      (complete setting.inlined below' (info.inlined others) type path value) := by
  induction type generalizing path value with
  | named id =>
      unfold complete
      split
      · exact parallel_fail rfl
      · dsimp only
        split
        · exact parallel_succeed _
        · exact parallel_named pairs inside twins id (knownType id rfl) path value
  | list of ih =>
      unfold complete
      split
      · exact parallel_fail rfl
      · dsimp only
        split
        · exact parallel_succeed _
        · exact parallel_list of path (fun place item => ih knownType place item) value
  | nonNull of ih =>
      unfold complete
      split
      · exact parallel_fail rfl
      · refine (ih knownType path value).andThen fun outcome outcome' same => ?_
        refine parallel_onSuccess (fun completed => ?_) same
        split
        · exact parallel_fail rfl
        · exact parallel_succeed _
  | broken fault =>
      unfold complete
      split
      · exact parallel_fail rfl
      · exact parallel_fail rfl

end Completion

namespace Execution

variable {below below' : Completion.Subfields} {depth : Nat} {info : Info} {others : List FieldNode}

theorem parallel_resolve (blind : Blind pairing.answer) (field : Field) (source arguments : Value)
    {next next' : Reply → Program}
    (each : ∀ reply, (next reply).Parallel pairing (next' reply)) :
    (resolve setting field source arguments info next).Parallel pairing
      (resolve setting.inlined field source arguments (info.inlined others) next') := by
  have alike : setting.inlined.schema = setting.schema := rfl
  have resolver : setting.inlined.environment.fieldResolver = setting.environment.fieldResolver := rfl
  have name : (info.inlined others).fieldName = info.fieldName := rfl
  unfold resolve
  rw [alike, resolver, name]
  split
  · exact each _
  · split
    · refine parallel_slot blind _ (fun id => ?_) each
      rw [Call.unread, Call.unread, Info.unread_inlined]
    · split
      · exact parallel_call blind (by rw [Call.unread, Call.unread, Info.unread_inlined]) each
      · unfold resolveByName
        rw [name]
        split
        · exact parallel_call blind (by rw [Call.unread, Call.unread, Info.unread_inlined]) each
        · exact each _
        · exact each _

theorem parallel_fieldValue (pairs : setting.Pairs known rank pairing)
    (inside : BelowParallel setting known rank pairing depth below below')
    (twins : Twins setting rank pairing depth info.nodes others) (field : Field) (type : TypeRef)
    (knownType : ∀ id, type.innermost = .ok id → setting.schema.kindOf id = .object → known id)
    (source : Value) (node : FieldNode) :
    (fieldValue setting below field type source info node).Parallel pairing
      (fieldValue setting.inlined below' field type source (info.inlined others)
        (node.inlined setting.scope.fragments)) := by
  refine parallel_act_self _ fun result => ?_
  cases result with
  | error failure => exact parallel_fail rfl
  | ok bound =>
      refine .perform_left trivial (.perform_right trivial ?_)
      refine parallel_resolve pairs.blind field source _ fun reply => ?_
      refine parallel_onSuccess (fun value => ?_) (.refl reply)
      refine .perform_left trivial (.perform_right trivial ?_)
      refine parallel_receive rfl value fun outcome => ?_
      refine parallel_onSuccess (fun received => ?_) (.refl outcome)
      exact Completion.parallel_complete pairs inside twins type knownType info.path received

theorem parallel_field? (pairs : setting.Pairs known rank pairing)
    (inside : ∀ less, less < depth → BelowParallel setting known rank pairing less below below')
    (parent : TypeId) (knownParent : known parent) (source : Value) (path : ResponsePath)
    {nodes others : List FieldNode} (repeats : setting.scope.Repeats pairing.answer rank nodes others)
    (shallow : ∀ node ∈ others, node.selection.depth (fun _ => 0) ≤ depth) :
    Option.Rel (Program.Parallel pairing) (field? setting below parent source path nodes)
      (field? setting.inlined below' parent source path others) := by
  have alike : setting.inlined.schema = setting.schema := rfl
  unfold field?
  rw [repeats.head?, alike]
  cases first : nodes.head? with
  | none => exact .none
  | some node =>
      have name : (node.inlined setting.scope.fragments).name = node.name := rfl
      rw [Option.map_some, Option.bind_some, Option.bind_some, name]
      -- a node is deeper than what is selected in it
      obtain ⟨less, below, enough⟩ : ∃ less, less < depth ∧
          ∀ node ∈ others, Selection.depthOfAll (fun _ => 0) node.selections ≤ less := by
        have deep : ∀ node ∈ others,
            1 + Selection.depthOfAll (fun _ => 0) node.selections ≤ depth := by
          intro node member
          have le := shallow node member
          rwa [FieldNode.selection, Selection.depth] at le
        have member : node.inlined setting.scope.fragments ∈ others := by
          apply List.mem_of_head?
          rw [repeats.head?, first]
          rfl
        have some_ := deep _ member
        refine ⟨depth - 1, by omega, fun node member => ?_⟩
        have le := deep node member
        omega
      split
      · exact .some (parallel_fail rfl)
      · exact .none
      · next field declared =>
          split
          · exact .some (parallel_fail rfl)
          · next type typed =>
              let info : Info := ⟨setting.environment, node.name, nodes, type, parent, path⟩
              have twins : Twins setting rank pairing less info.nodes others := ⟨repeats, enough⟩
              refine .some (Parallel.andThen ?_ fun outcome outcome' same => ?_)
              · exact parallel_fieldValue pairs (inside less below) twins field type
                  (fun id => pairs.sound.field parent node.name field type id knownParent declared typed)
                  source node
              · exact parallel_settle type nodes others path same

theorem parallel_fieldPrograms (pairs : setting.Pairs known rank pairing)
    (inside : ∀ less, less < depth → BelowParallel setting known rank pairing less below below')
    (parent : TypeId) (knownParent : known parent) (source : Value) (path : Option ResponsePath)
    {fields others : Collected} (merges : setting.scope.Merges pairing.answer rank fields others)
    (shallow : ∀ entry ∈ others, ∀ node ∈ entry.2, node.selection.depth (fun _ => 0) ≤ depth) :
    List.Forall₂ (fun entry other => entry.1 = other.1 ∧ entry.2.Parallel pairing other.2)
      (fieldPrograms setting below parent source path fields)
      (fieldPrograms setting.inlined below' parent source path others) := by
  induction merges with
  | nil => exact .nil
  | @cons entry other fields others first _ ih =>
      obtain ⟨key, nodes⟩ := entry
      obtain ⟨_, others'⟩ := other
      obtain ⟨same, repeats⟩ := first
      dsimp only at same repeats
      subst same
      have later := ih fun entry member => shallow entry (List.mem_cons_of_mem _ member)
      have here := parallel_field? pairs inside parent knownParent source (.add path (.name key))
        repeats (shallow _ List.mem_cons_self)
      unfold fieldPrograms at later ⊢
      simp only [List.filterMap_cons]
      generalize field? setting below parent source (.add path (.name key)) nodes = program at here ⊢
      generalize field? setting.inlined below' parent source (.add path (.name key)) others' = program'
        at here ⊢
      cases here with
      | none => exact later
      | some parallel => exact .cons ⟨rfl, parallel⟩ later

theorem parallel_parts {programs others : List (String × Program)}
    (each : List.Forall₂ (fun entry other => entry.1 = other.1 ∧ entry.2.Parallel pairing other.2)
      programs others) :
    programs.map (·.1) = others.map (·.1)
      ∧ List.Forall₂ (Program.Parallel pairing) (programs.map (·.2)) (others.map (·.2)) := by
  constructor
  · induction each with
    | nil => rfl
    | cons first _ ih => rw [List.map_cons, List.map_cons, first.1, ih]
  · rw [List.forall₂_map_left_iff, List.forall₂_map_right_iff]
    exact each.imp fun _ _ both => both.2

/-- Fields are executed in parallel with and without spreads, as long as levels are enough for both. -/
theorem parallel_fields (pairs : setting.Pairs known rank pairing) (levels levels' depth : Nat)
    (enough : depth < levels) (enough' : depth < levels') (parent : TypeId)
    (knownParent : known parent) (source : Value) (path : Option ResponsePath)
    {collected others : Collected}
    (merges : setting.scope.Merges pairing.answer rank collected others)
    (shallow : ∀ entry ∈ others, ∀ node ∈ entry.2, node.selection.depth (fun _ => 0) ≤ depth) :
    (fields setting levels parent source path collected).Parallel pairing
      (fields setting.inlined levels' parent source path others) := by
  induction levels generalizing levels' depth parent source path collected others with
  | zero => omega
  | succ levels ih =>
      obtain ⟨levels', rfl⟩ : ∃ less, levels' = less + 1 := ⟨levels' - 1, by omega⟩
      obtain ⟨keys, programs⟩ := parallel_parts (parallel_fieldPrograms pairs
        (fun less below type value path fields others knownType merges shallow =>
          ih levels' less (by omega) (by omega) type knownType value (some path) merges shallow)
        parent knownParent source path merges shallow)
      rw [fields, fields, keys]
      exact parallel_join _ programs

theorem parallel_inTurn (build : List Value → Value) {programs others : List Program}
    (each : List.Forall₂ (Program.Parallel pairing) programs others) {settled settled' : List Outcome}
    (before : List.Forall₂ (Corresponds Eq) settled settled') :
    (inTurn (.gathered build) programs settled).Parallel pairing
      (inTurn (.gathered build) others settled') := by
  induction each generalizing settled settled' with
  | nil => exact parallel_gathered build (.ok before)
  | cons first _ ih =>
      refine first.andThen fun outcome outcome' same => ?_
      have later := ih (List.rel_append before (.cons same .nil))
      cases same with
      | ok same => exact later
      | @error failure failure' same =>
          cases failure with
          | response error =>
              cases failure' with
              | response error' => exact later
              | _ => cases same
          | _ =>
              cases failure' with
              | response error' => cases same
              | _ => exact parallel_gathered build (.error same)

theorem parallel_rootFields (pairs : setting.Pairs known rank pairing) (order : RootOrder)
    (depth : Nat) (enough : depth ≤ setting.environment.levels)
    (enough' : depth ≤ setting.inlined.environment.levels) (root : TypeId) (knownRoot : known root)
    {collected others : Collected}
    (merges : setting.scope.Merges pairing.answer rank collected others)
    (shallow : ∀ entry ∈ others, ∀ node ∈ entry.2, node.selection.depth (fun _ => 0) ≤ depth) :
    (rootFields setting order root collected).Parallel pairing
      (rootFields setting.inlined order root others) := by
  cases order with
  | sideBySide =>
      exact parallel_fields pairs _ _ depth (by omega) (by omega) root knownRoot _ none merges shallow
  | inTurn =>
      have inside : ∀ less, less < depth → BelowParallel setting known rank pairing less
          (fun type value place selected =>
            fields setting setting.environment.levels type value (some place) selected)
          (fun type value place selected =>
            fields setting.inlined setting.inlined.environment.levels type value (some place) selected) :=
        fun less below type value path fields others knownType merges shallow =>
          parallel_fields pairs setting.environment.levels setting.inlined.environment.levels less
            (by omega) (by omega) type knownType value (some path) merges shallow
      have programs := parallel_fieldPrograms pairs inside root knownRoot setting.environment.root none
        merges shallow
      obtain ⟨keys, programs⟩ := parallel_parts programs
      show Program.Parallel pairing
        (inTurn (.gathered (objectOf ((fieldPrograms setting _ root _ none collected).map (·.1))))
          ((fieldPrograms setting _ root _ none collected).map (·.2)) []) _
      rw [keys]
      exact parallel_inTurn _ programs .nil

end Execution

end

namespace Selection

mutual

theorem depth_le_fieldCount {spreadDepth : String → Nat} {bound : Nat}
    (each : ∀ name, spreadDepth name ≤ bound) (selection : Selection) :
    selection.depth spreadDepth ≤ selection.fieldCount + bound := by
  match selection with
  | .field _ _ _ _ _ selections =>
      have inner := depthOfAll_le_fieldCounts each selections
      rw [depth, fieldCount]
      omega
  | .inlineFragment _ _ _ selections =>
      rw [depth, fieldCount]
      exact depthOfAll_le_fieldCounts each selections
  | .spread _ name _ =>
      rw [depth, fieldCount, Nat.zero_add]
      exact each name

theorem depthOfAll_le_fieldCounts {spreadDepth : String → Nat} {bound : Nat}
    (each : ∀ name, spreadDepth name ≤ bound) (selections : List Selection) :
    depthOfAll spreadDepth selections ≤ fieldCounts selections + bound := by
  match selections with
  | [] => exact Nat.zero_le _
  | selection :: rest =>
      have first := depth_le_fieldCount each selection
      have later := depthOfAll_le_fieldCounts each rest
      rw [depthOfAll, fieldCounts]
      omega

end

end Selection

/-- The number of fields in the fragments of other names. -/
def Fragment.countOutside (fragments : List Fragment) (within : List String) : Nat :=
  ((fragments.filter fun fragment => !within.contains fragment.name).map fun fragment =>
    Selection.fieldCounts fragment.selections).sum

namespace Fragment

theorem countOutside_append (before after : List Fragment) (within : List String) :
    countOutside (before ++ after) within = countOutside before within + countOutside after within := by
  simp only [countOutside, List.filter_append, List.map_append, List.sum_append]

theorem countOutside_cons_le (fragments : List Fragment) (name : String) (within : List String) :
    countOutside fragments (name :: within) ≤ countOutside fragments within := by
  refine List.Sublist.sum_le_sum (List.Sublist.map _ ?_) fun _ _ => Nat.zero_le _
  exact List.monotone_filter_right _ fun fragment => by simp

theorem countOutside_of_found {fragments : List Fragment} {name : String} {fragment : Fragment}
    {within : List String} (found : fragment? fragments name = some fragment)
    (outside : within.contains name = false) :
    Selection.fieldCounts fragment.selections + countOutside fragments (name :: within)
      ≤ countOutside fragments within := by
  obtain ⟨member, rfl⟩ := name_of_fragment? found
  obtain ⟨before, after, rfl⟩ := List.append_of_mem member
  have front := countOutside_cons_le before fragment.name within
  have back := countOutside_cons_le after fragment.name within
  have here : countOutside (fragment :: after) within
      = Selection.fieldCounts fragment.selections + countOutside after within := by
    simp only [countOutside, List.filter_cons, outside, Bool.not_false, if_true, List.map_cons,
      List.sum_cons]
  have there : countOutside (fragment :: after) (fragment.name :: within)
      = countOutside after (fragment.name :: within) := by
    simp only [countOutside, List.filter_cons, List.contains_cons, beq_self_eq_true, Bool.true_or,
      Bool.not_true, Bool.false_eq_true, if_false]
  rw [countOutside_append, countOutside_append, here, there]
  omega

end Fragment

theorem Selection.depthWithin_le (fragments : List Fragment) (levels : Nat) (within : List String)
    (selections : List Selection) :
    depthWithin fragments levels within selections
      ≤ fieldCounts selections + Fragment.countOutside fragments within := by
  induction levels generalizing within selections with
  | zero => exact depthOfAll_le_fieldCounts (fun _ => Nat.zero_le _) selections
  | succ levels ih =>
      refine depthOfAll_le_fieldCounts (fun name => ?_) selections
      split
      · next fragment found =>
          split
          · exact Nat.zero_le _
          · next outside =>
              rw [Bool.not_eq_true] at outside
              exact Nat.le_trans (ih _ _) (Fragment.countOutside_of_found found outside)
      · exact Nat.zero_le _

/-- Objects may nest as deep as the fields of an operation do. -/
theorem Environment.depth_le_levels (environment : Environment) :
    environment.operation.depth environment.fragments ≤ environment.levels := by
  have le := Selection.depthWithin_le environment.fragments environment.fragments.length []
    environment.operation.selections
  have all : Fragment.countOutside environment.fragments []
      = (environment.fragments.map fun fragment =>
        Selection.fieldCounts fragment.selections).foldr (· + ·) 0 := by
    simp only [Fragment.countOutside, List.contains_nil, Bool.not_false, List.filter_true,
      List.sum_eq_foldr]
  rw [Operation.depth, levels, ← all]
  omega

/-- An operation is carried out in parallel with and without spreads. -/
theorem Execution.parallel_operationIn {setting : Setting} {known : TypeId → Prop}
    {rank : String → Nat} {pairing : Pairing} (pairs : setting.Pairs known rank pairing)
    (order : RootOrder) (root : TypeId) (knownRoot : known root)
    (expands : setting.scope.Expands pairing.answer rank setting.scope.fragments.length
      setting.environment.operation.selections) :
    (operationIn setting order root).Parallel pairing (operationIn setting.inlined order root) := by
  have collects : setting.scope.Collects pairing.answer rank
      (Selection.depthOfAll (fun _ => 0) setting.inlined.environment.operation.selections)
      ((setting.scope.collect root setting.environment.operation.selections).result pairing.answer)
      ((setting.inlined.scope.collect root
        setting.inlined.environment.operation.selections).result pairing.answer) :=
    Scope.collects_collect pairs.grounded _ _ expands
  -- A spread adds as much depth as what stands for it: the levels of either operation are enough.
  have deep : Selection.depthOfAll (fun _ => 0) setting.inlined.environment.operation.selections
      = setting.environment.operation.depth setting.environment.fragments :=
    Selection.depthOfAll_inlineWithin pairs.grounded.ranked _ _ _ [] _ expands.below (Nat.le_refl _)
      fun _ member => by cases member
  have enough := setting.environment.depth_le_levels
  have enough' : Selection.depthOfAll (fun _ => 0) setting.inlined.environment.operation.selections
      ≤ Selection.fieldCounts setting.inlined.environment.operation.selections + 0 :=
    Selection.depthOfAll_le_fieldCounts (fun _ => Nat.le_refl 0) _
  refine Parallel.andThen (parallel_act _ _ _ _ ?_) fun outcome outcome' same => ?_
  · generalize (setting.scope.collect root setting.environment.operation.selections).result
      pairing.answer = left at collects ⊢
    generalize (setting.inlined.scope.collect root
      setting.inlined.environment.operation.selections).result pairing.answer = right at collects ⊢
    cases collects with
    | failed failure => exact parallel_fail rfl
    | found merges shallow =>
        refine parallel_rootFields pairs order _ (deep ▸ enough) ?_ root knownRoot merges shallow
        rw [Environment.levels]
        omega
  · cases same with
    | ok same =>
        subst same
        exact parallel_succeed _
    | @error failure failure' same =>
        cases failure with
        | response error =>
            cases failure' with
            | response error' =>
                rw [Failure.unplaced, Failure.unplaced, Failure.response.injEq] at same
                exact .record same (parallel_succeed _)
            | _ => cases same
        | _ =>
            cases failure' with
            | response error' => cases same
            | _ => exact parallel_fail same

end GraphQL
