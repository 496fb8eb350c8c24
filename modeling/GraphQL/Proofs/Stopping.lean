import GraphQL.Proofs.Turns

/-!
Programs that must not wait. Such a program does what the same program does that may wait, up to the
first point where that one would wait: there it gives up what it would have to wait for and stops.
-/

namespace GraphQL

/-- A failure among siblings does not end the others, unless it stops the execution. -/
def Outcome.Calm (outcome : Outcome) : Prop :=
  ∀ failure, outcome = .error failure →
    (∃ error, failure = .response error) ∨ failure.kind = .asynchronous

namespace Program

/-- What stops an execution is passed on as it is. -/
def Passes {α : Type} (next : Except Failure α → Program) : Prop :=
  ∀ failure : Failure, failure.kind = .asynchronous → next (.error failure) = fail failure

mutual

/-- What the first program does, the second one does as well, unless the first stops where the second
waits. -/
def Stops (account : Account) : Program → Program → Prop
  | .done outcome, full => full = .done outcome
  | .call asked next, full => ∃ next', full = .call asked next'
    ∧ ∀ reply, account.called asked reply → Stops account (next reply) (next' reply)
  | .perform effect next, full =>
    (∃ next', full = .perform effect next' ∧ Stops account next next')
    ∨ ∃ tickets next', tickets ≠ [] ∧ effect = .close tickets ∧ next = fail .asynchronous
      ∧ full = .wait tickets next'
  | .consult key next, full => ∃ next', full = .consult key next'
    ∧ ∀ found, Stops account (next found) (next' found)
  | .drain handle next, full => ∃ next', full = .drain handle next'
    ∧ ∀ items fault, account.drained handle items fault →
      Stops account (next items fault) (next' items fault)
  | .wait _ _, _ => False
  | .join children next, full => ∃ children' next', full = .join children' next'
    ∧ StopEach account children children'
    ∧ (∀ settled, Stops account (next settled) (next' settled)) ∧ Passes next ∧ Passes next'

def StopEach (account : Account) : List Program → List Program → Prop
  | [], full => full = []
  | program :: rest, full => ∃ program' rest', full = program' :: rest'
    ∧ Stops account program program' ∧ program'.Ends account Outcome.Calm
    ∧ StopEach account rest rest'

end

variable {account : Account} {environment : Environment}

theorem stops_done (outcome : Outcome) : (done outcome).Stops account (done outcome) :=
  rfl

theorem stops_fail (failure : Failure) : (fail failure).Stops account (fail failure) :=
  stops_done _

theorem stops_succeed (value : Value) : (succeed value).Stops account (succeed value) :=
  stops_done _

theorem stops_call (asked : Call) {next next' : Reply → Program}
    (each : ∀ reply, account.called asked reply → (next reply).Stops account (next' reply)) :
    (call asked next).Stops account (call asked next') :=
  ⟨next', rfl, each⟩

theorem stops_perform (effect : Effect) {next next' : Program} (rest : next.Stops account next') :
    (perform effect next).Stops account (perform effect next') :=
  .inl ⟨next', rfl, rest⟩

theorem stops_ite {condition : Prop} [Decidable condition] {left left' right right' : Program}
    (yes : condition → left.Stops account left') (no : ¬ condition → right.Stops account right') :
    (if condition then left else right).Stops account (if condition then left' else right') := by
  split
  · next holds => exact yes holds
  · next fails => exact no fails

theorem stops_closing (tickets : List Nat) {next next' : Program}
    (rest : next.Stops account next') :
    (closing tickets next).Stops account (closing tickets next') := by
  unfold closing
  split
  · exact rest
  · exact stops_perform _ rest

theorem stops_wait {tickets : List Nat} (some_ : tickets ≠ [])
    (next : Except Failure (List Value) → Program) :
    (closing tickets (fail .asynchronous)).Stops account (wait tickets next) := by
  have filled : tickets.isEmpty = false := by simpa using some_
  simp only [closing, filled, Bool.false_eq_true, if_false]
  exact .inr ⟨tickets, next, some_, rfl, rfl, rfl⟩

theorem stops_act {α : Type} (action : Action α) {next next' : Except Failure α → Program}
    (each : ∀ result, action.Yields account result → (next result).Stops account (next' result)) :
    (act action next).Stops account (act action next') := by
  induction action with
  | done result => exact each result rfl
  | call asked reply ih =>
      refine stops_call asked fun answer called => ?_
      exact ih answer fun result yields => each result ⟨answer, called, yields⟩

theorem passes_andThen {α : Type} {next : Except Failure α → Program} {last : Outcome → Program}
    (first : Passes next) (second : Passes last) :
    Passes fun settled => (next settled).andThen last := by
  intro failure stops
  simp only [first failure stops, fail, andThen]
  exact second failure stops

/-- Programs in sequence stop where the first of them stops, or else where the next one does. -/
theorem stops_andThen {strict full : Program} {next next' : Outcome → Program}
    (first : strict.Stops account full) (second : ∀ outcome, (next outcome).Stops account (next' outcome))
    (passes : Passes next) (passes' : Passes next') :
    (strict.andThen next).Stops account (full.andThen next') := by
  match strict with
  | .done outcome =>
      simp only [Stops] at first
      subst first
      exact second outcome
  | .call asked reply =>
      simp only [Stops] at first
      obtain ⟨reply', rfl, each⟩ := first
      exact stops_call asked fun answer called =>
        stops_andThen (each answer called) second passes passes'
  | .perform effect rest =>
      simp only [Stops] at first
      obtain ⟨rest', rfl, later⟩ | ⟨tickets, wait', some_, rfl, rfl, rfl⟩ := first
      · exact stops_perform effect (stops_andThen later second passes passes')
      · simp only [andThen, fail, Stops]
        exact .inr ⟨tickets, _, some_, rfl, passes .asynchronous rfl, rfl⟩
  | .consult key rest =>
      simp only [Stops] at first
      obtain ⟨rest', rfl, each⟩ := first
      simp only [andThen, Stops]
      exact ⟨_, rfl, fun found => stops_andThen (each found) second passes passes'⟩
  | .drain handle rest =>
      simp only [Stops] at first
      obtain ⟨rest', rfl, each⟩ := first
      simp only [andThen, Stops]
      exact ⟨_, rfl, fun items fault drained =>
        stops_andThen (each items fault drained) second passes passes'⟩
  | .wait tickets rest =>
      simp only [Stops] at first
  | .join children rest =>
      simp only [Stops] at first
      obtain ⟨children', rest', rfl, each, later, through, through'⟩ := first
      simp only [andThen, Stops]
      exact ⟨children', _, rfl, each,
        fun settled => stops_andThen (later settled) second passes passes',
        passes_andThen through passes, passes_andThen through' passes'⟩

theorem stops_receive (environment : Environment) (value : Value) {next next' : Outcome → Program}
    (each : ∀ value, (next (.ok value)).Stops account (next' (.ok value))) (passes : Passes next) :
    (receive ⟨environment, true⟩ value next).Stops account
      (receive ⟨environment, false⟩ value next') := by
  cases value with
  | deferred ticket =>
      simp only [receive, if_true, Bool.false_eq_true, if_false, passes .asynchronous rfl, await]
      exact stops_wait (List.cons_ne_nil _ _) _
  | _ => exact each _

theorem stops_onSuccess {next next' : Value → Program}
    (each : ∀ value, (next value).Stops account (next' value)) (outcome : Outcome) :
    (onSuccess next outcome).Stops account (onSuccess next' outcome) := by
  cases outcome with
  | ok value => exact each value
  | error failure => exact stops_fail failure

theorem passes_onSuccess (next : Value → Program) : Passes (onSuccess next) := fun _ _ => rfl

theorem stops_bubble (first : Failure) (failures : List Failure) :
    (bubble first failures).Stops account (bubble first failures) := by
  induction failures with
  | nil => exact stops_fail first
  | cons failure rest ih =>
      unfold bubble
      split
      · exact stops_fail first
      · next same =>
          cases same
          exact stops_perform _ ih
      · exact stops_fail _

theorem stops_gathered (build : List Value → Value) (settled : Except Failure (List Outcome)) :
    (gathered build settled).Stops account (gathered build settled) := by
  unfold gathered
  split
  · exact stops_fail _
  · split
    · exact stops_succeed _
    · exact stops_bubble _ _

theorem passes_gathered (build : List Value → Value) : Passes (gathered build) := fun _ _ => rfl

theorem stops_settle (type : TypeRef) (nodes : List FieldNode) (path : ResponsePath)
    (outcome : Outcome) :
    (settle type nodes path outcome).Stops account (settle type nodes path outcome) := by
  unfold settle
  split
  · exact stops_succeed _
  · split
    · exact stops_fail _
    · simp only
      split
      · exact stops_fail _
      · exact stops_perform _ (stops_succeed _)

theorem passes_settle (type : TypeRef) (nodes : List FieldNode) (path : ResponsePath) :
    Passes (settle type nodes path) := by
  intro failure stops
  simp only [settle, stops, decide_true, Bool.or_true, if_true]

/-- Siblings are joined alike, and an execution that stops at one of them stops as a whole. -/
theorem stops_siblings (build : List Value → Value) {children children' : List Program}
    (each : StopEach account children children') :
    (join children (gathered build)).Stops account (join children' (gathered build)) :=
  ⟨children', gathered build, rfl, each, stops_gathered build, passes_gathered build,
    passes_gathered build⟩

theorem stopEach_map {α : Type} (entries : List α) (strict full : α → Program)
    (each : ∀ entry ∈ entries, (strict entry).Stops account (full entry)
      ∧ (full entry).Ends account Outcome.Calm) :
    StopEach account (entries.map strict) (entries.map full) := by
  induction entries with
  | nil => simp only [List.map_nil, StopEach]
  | cons entry rest ih =>
      obtain ⟨stops, calm⟩ := each entry List.mem_cons_self
      simp only [List.map_cons, StopEach]
      exact ⟨_, _, rfl, stops, calm, ih fun other inside => each other (List.mem_cons_of_mem _ inside)⟩

end Program

open Program

section

variable {account : Account} {environment : Environment}

theorem Slot.stops_call (slot : Slot) (asked : Nat → Call) {next next' : Reply → Program}
    (each : ∀ reply, (next reply).Stops account (next' reply)) :
    (slot.call asked next).Stops account (slot.call asked next') := by
  cases slot with
  | function id => exact Program.stops_call _ fun reply _ => each reply
  | other value => exact each _
  | absent => exact each _

namespace RuntimeType

theorem stops_decideDeferred (deferred : List (TypeId × Nat))
    {next next' : Except Failure (Option TypeId) → Program}
    (each : ∀ found, (next found).Stops account (next' found)) (passes : Passes next) :
    (decideDeferred ⟨environment, true⟩ deferred next).Stops account
      (decideDeferred ⟨environment, false⟩ deferred next') := by
  unfold decideDeferred
  simp only [if_true, Bool.false_eq_true, if_false]
  split
  · exact each _
  · next some_ =>
      rw [passes .asynchronous rfl]
      refine stops_wait ?_ _
      cases deferred with
      | nil => exact absurd rfl some_
      | cons first rest =>
          simp only [List.map_cons, List.eraseDups_cons]
          exact List.cons_ne_nil _ _

theorem stops_askTypes (info : Info) (value : Value)
    {next next' : Except Failure (Option TypeId) → Program}
    (each : ∀ found, (next found).Stops account (next' found)) (passes : Passes next)
    (tests : List (TypeId × Slot)) (deferred : List (TypeId × Nat)) :
    (askTypes ⟨environment, true⟩ info value next tests deferred).Stops account
      (askTypes ⟨environment, false⟩ info value next' tests deferred) := by
  induction tests generalizing deferred with
  | nil => exact stops_decideDeferred deferred each passes
  | cons test rest ih =>
      obtain ⟨type, slot⟩ := test
      unfold askTypes
      refine Slot.stops_call slot _ fun reply => ?_
      split
      · exact each _
      · exact ih _
      · split
        · exact stops_closing _ (each _)
        · exact ih _

theorem stops_find (info : Info) (abstract : TypeId) (value : Value) {next next' : Outcome → Program}
    (each : ∀ outcome, (next outcome).Stops account (next' outcome)) (passes : Passes next) :
    (find ⟨environment, true⟩ info abstract value next).Stops account
      (find ⟨environment, false⟩ info abstract value next') := by
  have received := fun found => stops_receive environment found (fun value => each (.ok value)) passes
  unfold find
  refine stops_ite (fun _ => Slot.stops_call _ _ fun reply => ?_) fun _ => ?_
  · cases reply with
    | ok found => exact received found
    | error failure => exact each _
  simp only
  cases environment.typeResolver with
  | some id =>
      refine Program.stops_call _ fun reply _ => ?_
      cases reply with
      | ok found => exact received found
      | error failure => exact each _
  | none =>
      unfold byDefault
      simp only [Setting.schema]
      split
      · exact each _
      · cases environment.schema.possibleTypes abstract with
        | error fault => exact each _
        | ok possible =>
            refine stops_askTypes info value (fun found => ?_) (fun failure stops => ?_) _ _
            · split <;> exact each _
            · exact passes failure stops

end RuntimeType

/-- A schema in which the fields of the known types are worked out. -/
structure Unbroken (schema : Schema) (known : TypeId → Prop) : Prop extends Closed schema known where
  declared : ∀ parent name, known parent → ∃ found, schema.field? parent name = .ok found
    ∧ ∀ field, found = some field → ∃ type, field.type = .ok type

theorem Sound.unbroken {schema : Schema} {known : TypeId → Prop} (sound : Sound schema known) :
    Unbroken schema known where
  toClosed := sound.toClosed
  declared parent name knownParent := by
    obtain ⟨found, looked, typed⟩ := sound.declared parent name knownParent
    exact ⟨found, looked, fun field same => (typed field same).imp fun _ typed => typed.choose_spec.1⟩

/-- No function writes a leaf as a result that is still deferred. -/
def Account.WritesAtOnce (account : Account) (schema : Schema) : Prop :=
  ∀ leaf value ticket, ¬ (schema.serialize leaf value).Yields account (.ok (.deferred ticket))

theorem Outcome.calm_of_leaves {setting : Setting} {outcome : Outcome}
    (leaves : setting.Leaves account outcome) : outcome.Calm := by
  rintro failure rfl
  exact leaves.2

/-- A position does not end what happens beside it, unless the execution stops. -/
theorem calm_settled {setting : Setting} {program : Program}
    (ends : program.Ends account (setting.Takes account)) (type : TypeRef) (nodes : List FieldNode)
    (path : ResponsePath) :
    (program.andThen (settle type nodes path)).Ends account Outcome.Calm :=
  (ends_andThen _ _ ends (ends_settle type nodes path)).mono fun _ => Outcome.calm_of_leaves

variable {known : TypeId → Prop}

/-- The selections on objects of known types stop where the selections that may wait do wait. -/
def BelowStops (account : Account) (known : TypeId → Prop) (strict full : Completion.Subfields) :
    Prop :=
  ∀ type value path fields, known type →
    (strict type value path fields).Stops account (full type value path fields)

namespace Completion

theorem stops_leaf (atOnce : account.WritesAtOnce environment.schema) (type : TypeId)
    (value : Value) :
    (leaf ⟨environment, true⟩ type value).Stops account (leaf ⟨environment, false⟩ type value) := by
  unfold leaf
  refine stops_act _ fun result yields => ?_
  split
  · exact stops_fail _
  · exact absurd yields (atOnce _ _ _)
  · exact stops_ite (fun _ => stops_fail _) fun _ => stops_succeed _

theorem stops_executeSubfields (environment : Environment) {strict full : Subfields}
    (below : BelowStops account known strict full) (info : Info) (type : TypeId)
    (path : ResponsePath) (value : Value) (knownType : known type) :
    (executeSubfields ⟨environment, true⟩ strict info type path value).Stops account
      (executeSubfields ⟨environment, false⟩ full info type path value) := by
  simp only [executeSubfields, subfields, Stops]
  refine ⟨_, rfl, fun found => ?_⟩
  cases found with
  | some fields => exact below type value path fields knownType
  | none =>
      refine stops_act _ fun result _ => ?_
      cases result with
      | ok fields => exact stops_perform _ (below type value path fields knownType)
      | error failure => exact stops_fail _

theorem stops_object {strict full : Subfields} (below : BelowStops account known strict full)
    (info : Info) (type : TypeId) (path : ResponsePath) (value : Value) (knownType : known type) :
    (object ⟨environment, true⟩ strict info type path value).Stops account
      (object ⟨environment, false⟩ full info type path value) := by
  have execute := stops_executeSubfields environment below info type path value
    knownType
  unfold object
  refine stops_ite (fun _ => execute) fun _ => ?_
  refine Slot.stops_call _ _ fun reply => stops_onSuccess (fun result => ?_) reply
  refine stops_receive environment result (fun holds => ?_) (passes_onSuccess _)
  exact stops_ite (fun _ => execute) fun _ => stops_fail _

theorem stops_abstract (closed : Closed environment.schema known) {strict full : Subfields}
    (below : BelowStops account known strict full) (info : Info) (type : TypeId)
    (path : ResponsePath) (value : Value) :
    (abstract ⟨environment, true⟩ strict info type path value).Stops account
      (abstract ⟨environment, false⟩ full info type path value) := by
  unfold abstract
  refine RuntimeType.stops_find info type value (stops_onSuccess fun found => ?_)
    (passes_onSuccess _)
  have same : RuntimeType.check ⟨environment, true⟩ info type value found
      = RuntimeType.check ⟨environment, false⟩ info type value found := rfl
  rw [same]
  cases checked : RuntimeType.check ⟨environment, false⟩ info type value found with
  | ok id =>
      have possible := RuntimeType.possible_of_check info type value found id checked
      exact stops_object below info id path value (closed.possible type id possible.1 possible.2)
  | error failure => exact stops_fail _

theorem stops_named (atOnce : account.WritesAtOnce environment.schema)
    (closed : Closed environment.schema known) {strict full : Subfields}
    (below : BelowStops account known strict full) (info : Info) (type : TypeId)
    (path : ResponsePath) (value : Value)
    (knownType : environment.schema.kindOf type = .object → known type) :
    (named ⟨environment, true⟩ strict info type path value).Stops account
      (named ⟨environment, false⟩ full info type path value) := by
  unfold named
  simp only [Setting.schema]
  cases kind : environment.schema.kindOf type with
  | scalar => exact stops_leaf atOnce type value
  | enum => exact stops_leaf atOnce type value
  | interface => exact stops_abstract closed below info type path value
  | union => exact stops_abstract closed below info type path value
  | object => exact stops_object below info type path value (knownType kind)
  | input => exact stops_fail _

theorem stops_items (environment : Environment) (info : Info) (type : TypeRef) (path : ResponsePath)
    {strict full : ResponsePath → Value → Program}
    (each : ∀ place value, (strict place value).Stops account (full place value))
    (calm : ∀ value place, (receive ⟨environment, false⟩ value
      (onSuccess (full place))).Ends account (Setting.Takes ⟨environment, false⟩ account))
    (values : List Value) :
    (items ⟨environment, true⟩ info type path strict values).Stops account
      (items ⟨environment, false⟩ info type path full values) := by
  unfold items
  cases type with
  | broken fault => exact stops_fail _
  | _ =>
      refine stops_perform _ (stops_siblings _ (stopEach_map _ _ _ ?_))
      rintro ⟨item, index⟩ _
      refine ⟨stops_andThen ?_ (stops_settle _ _ _) (passes_settle _ _ _) (passes_settle _ _ _), ?_⟩
      · exact stops_receive environment item (fun value => each _ value) (passes_onSuccess _)
      · exact calm_settled (calm item _) _ _ _

theorem stops_list (info : Info) (type : TypeRef) (path : ResponsePath)
    {strict full : ResponsePath → Value → Program}
    (each : ∀ place value, (strict place value).Stops account (full place value))
    (calm : ∀ value place, (receive ⟨environment, false⟩ value
      (onSuccess (full place))).Ends account (Setting.Takes ⟨environment, false⟩ account))
    (value : Value) :
    (list ⟨environment, true⟩ info type path strict value).Stops account
      (list ⟨environment, false⟩ info type path full value) := by
  have listed := stops_items environment info type path each calm
  unfold list
  cases value with
  | iterator handle =>
      simp only [Stops]
      refine ⟨_, rfl, fun values fault _ => ?_⟩
      cases fault with
      | none => exact listed values
      | some failure => exact stops_ite (fun _ => stops_fail _) fun _ => stops_closing _ (stops_fail _)
  | _ =>
      simp only
      split
      · exact listed _
      · exact stops_fail _

theorem stops_complete (handled : account.Handled environment.schema)
    (atOnce : account.WritesAtOnce environment.schema) (closed : Closed environment.schema known)
    {strict full : Subfields} (below : BelowStops account known strict full)
    (ends : BelowEnds ⟨environment, false⟩ account full) (info : Info) (type : TypeRef)
    (path : ResponsePath) (value : Value)
    (knownType : ∀ id, type.innermost = .ok id → environment.schema.kindOf id = .object →
      known id) :
    (complete ⟨environment, true⟩ strict info type path value).Stops account
      (complete ⟨environment, false⟩ full info type path value) := by
  induction type generalizing path value with
  | named id =>
      unfold complete
      cases raised? value with
      | some failure => exact stops_fail _
      | none =>
          exact stops_ite (fun _ => stops_succeed _) fun _ =>
            stops_named atOnce closed below info id path value (knownType id rfl)
  | list of ih =>
      unfold complete
      cases raised? value with
      | some failure => exact stops_fail _
      | none =>
          refine stops_ite (fun _ => stops_succeed _) fun _ =>
            stops_list info of path (fun place item => ih place item knownType) (fun item place => ?_)
              value
          refine ends_receive handled item _ (fun received => ?_) fun failure handles =>
            ends_refused _ handles
          exact ends_complete handled ends info of place received
  | nonNull of ih =>
      unfold complete
      cases raised? value with
      | some failure => exact stops_fail _
      | none =>
          refine stops_andThen (ih path value knownType) (stops_onSuccess fun completed => ?_)
            (passes_onSuccess _) (passes_onSuccess _)
          exact stops_ite (fun _ => stops_fail _) fun _ => stops_succeed _
  | broken fault =>
      unfold complete
      cases raised? value with
      | some failure => exact stops_fail _
      | none => exact stops_fail _

end Completion

namespace Execution

theorem stops_resolve (field : Field) (source arguments : Value) (info : Info)
    {next next' : Reply → Program} (each : ∀ reply, (next reply).Stops account (next' reply)) :
    (resolve ⟨environment, true⟩ field source arguments info next).Stops account
      (resolve ⟨environment, false⟩ field source arguments info next') := by
  unfold resolve
  refine stops_ite (fun _ => each _) fun _ => stops_ite (fun _ => Slot.stops_call _ _ each) fun _ => ?_
  simp only
  cases environment.fieldResolver with
  | some id => exact Program.stops_call _ fun reply _ => each reply
  | none =>
      unfold resolveByName
      simp only
      split
      · exact Program.stops_call _ fun reply _ => each reply
      · exact each _
      · exact each _

theorem stops_fieldValue (handled : account.Handled environment.schema)
    (atOnce : account.WritesAtOnce environment.schema) (closed : Closed environment.schema known)
    {strict full : Completion.Subfields} (below : BelowStops account known strict full)
    (ends : BelowEnds ⟨environment, false⟩ account full) (field : Field) (type : TypeRef)
    (source : Value) (info : Info) (node : FieldNode)
    (knownType : ∀ id, type.innermost = .ok id → environment.schema.kindOf id = .object →
      known id) :
    (fieldValue ⟨environment, true⟩ strict field type source info node).Stops account
      (fieldValue ⟨environment, false⟩ full field type source info node) := by
  unfold fieldValue
  refine stops_act _ fun result _ => ?_
  cases result with
  | error failure => exact stops_fail _
  | ok bound =>
      refine stops_perform _ (stops_resolve field source _ info fun reply => ?_)
      refine stops_onSuccess (fun value => stops_perform _ ?_) reply
      refine stops_receive environment value (fun received => ?_) (passes_onSuccess _)
      exact Completion.stops_complete handled atOnce closed below ends info type info.path received
        knownType

theorem stops_field? (handled : account.Handled environment.schema)
    (atOnce : account.WritesAtOnce environment.schema)
    (unbroken : Unbroken environment.schema known) {strict full : Completion.Subfields}
    (below : BelowStops account known strict full)
    (ends : BelowEnds ⟨environment, false⟩ account full) (parent : TypeId)
    (knownParent : known parent) (source : Value) (path : ResponsePath) (nodes : List FieldNode) :
    (field? ⟨environment, true⟩ strict parent source path nodes = none
        ∧ field? ⟨environment, false⟩ full parent source path nodes = none)
      ∨ ∃ program program', field? ⟨environment, true⟩ strict parent source path nodes = some program
        ∧ field? ⟨environment, false⟩ full parent source path nodes = some program'
        ∧ program.Stops account program' ∧ program'.Ends account Outcome.Calm := by
  unfold field?
  cases nodes.head? with
  | none => exact .inl ⟨rfl, rfl⟩
  | some node =>
      obtain ⟨found, looked, typed⟩ := unbroken.declared parent node.name knownParent
      simp only [Option.bind_some, Setting.schema, looked]
      cases found with
      | none => exact .inl ⟨rfl, rfl⟩
      | some field =>
          obtain ⟨type, given⟩ := typed field rfl
          simp only [given]
          refine .inr ⟨_, _, rfl, rfl, stops_andThen ?_ (stops_settle _ _ _) (passes_settle _ _ _)
            (passes_settle _ _ _), calm_settled (ends_fieldValue handled ends field type source _ node)
              _ _ _⟩
          exact stops_fieldValue handled atOnce unbroken.toClosed below ends field type source _ node
            fun id => unbroken.field parent node.name field type id knownParent looked given

theorem stops_fieldPrograms (handled : account.Handled environment.schema)
    (atOnce : account.WritesAtOnce environment.schema)
    (unbroken : Unbroken environment.schema known) {strict full : Completion.Subfields}
    (below : BelowStops account known strict full)
    (ends : BelowEnds ⟨environment, false⟩ account full) (parent : TypeId)
    (knownParent : known parent) (source : Value) (path : Option ResponsePath)
    (fields : Collected) :
    (fieldPrograms ⟨environment, true⟩ strict parent source path fields).map (·.1)
        = (fieldPrograms ⟨environment, false⟩ full parent source path fields).map (·.1)
      ∧ StopEach account ((fieldPrograms ⟨environment, true⟩ strict parent source path fields).map (·.2))
        ((fieldPrograms ⟨environment, false⟩ full parent source path fields).map (·.2)) := by
  induction fields with
  | nil => simp only [fieldPrograms, List.filterMap_nil, List.map_nil, StopEach, and_self]
  | cons entry rest ih =>
      obtain ⟨key, nodes⟩ := entry
      obtain ⟨none_, none'⟩ | ⟨program, program', some_, some', stops, calm⟩ :=
        stops_field? handled atOnce unbroken below ends parent knownParent source
          (.add path (.name key)) nodes
      · rw [fieldPrograms_of_none _ none_, fieldPrograms_of_none _ none']
        exact ih
      · rw [fieldPrograms_of_some _ some_, fieldPrograms_of_some _ some']
        simp only [List.map_cons, StopEach]
        exact ⟨by rw [ih.1], program', _, rfl, stops, calm, ih.2⟩

theorem stops_fields (handled : account.Handled environment.schema)
    (atOnce : account.WritesAtOnce environment.schema)
    (unbroken : Unbroken environment.schema known) (levels : Nat) (parent : TypeId)
    (knownParent : known parent) (source : Value) (path : Option ResponsePath)
    (collected : Collected) :
    (fields ⟨environment, true⟩ levels parent source path collected).Stops account
      (fields ⟨environment, false⟩ levels parent source path collected) := by
  induction levels generalizing parent source path collected with
  | zero => exact stops_fail _
  | succ levels ih =>
      obtain ⟨keys, each⟩ := stops_fieldPrograms handled atOnce unbroken
        (fun type value place selected knownType => ih type knownType value (some place) selected)
        (fun type value place selected => ends_fields handled levels type value (some place) selected)
        parent knownParent source path collected
      simp only [fields, keys]
      exact stops_siblings _ each

theorem stops_inTurn (build : List Value → Value) (programs programs' : List Program)
    (each : StopEach account programs programs') (settled : List Outcome) :
    (inTurn (gathered build) programs settled).Stops account
      (inTurn (gathered build) programs' settled) := by
  induction programs generalizing programs' settled with
  | nil =>
      simp only [StopEach] at each
      subst each
      exact stops_gathered build _
  | cons program rest ih =>
      simp only [StopEach] at each
      obtain ⟨program', rest', rfl, first, _, later⟩ := each
      refine stops_andThen first (fun outcome => ?_) (fun failure stops => ?_) fun failure stops => ?_
      · split
        · exact ih rest' later _
        · exact stops_gathered build _
        · exact ih rest' later _
      · cases failure with
        | response error => cases stops
        | _ => rfl
      · cases failure with
        | response error => cases stops
        | _ => rfl

theorem stops_rootFields (handled : account.Handled environment.schema)
    (atOnce : account.WritesAtOnce environment.schema)
    (unbroken : Unbroken environment.schema known) (order : RootOrder) {root : TypeId}
    (knownRoot : known root) (collected : Collected) :
    (rootFields ⟨environment, true⟩ order root collected).Stops account
      (rootFields ⟨environment, false⟩ order root collected) := by
  cases order with
  | sideBySide => exact stops_fields handled atOnce unbroken _ root knownRoot _ none collected
  | inTurn =>
      obtain ⟨keys, each⟩ := stops_fieldPrograms handled atOnce unbroken
        (fun type value place selected knownType =>
          stops_fields handled atOnce unbroken environment.levels type knownType value (some place)
            selected)
        (fun type value place selected =>
          ends_fields handled environment.levels type value (some place) selected)
        root knownRoot environment.root none collected
      simp only [rootFields, fieldsInTurn, keys]
      exact stops_inTurn _ _ _ each []

theorem passes_settleRoot : Passes settleRoot := by
  intro failure stops
  cases failure with
  | response error => cases stops
  | _ => rfl

/-- An operation that must not wait does what it otherwise does, and stops where it otherwise waits. -/
theorem stops_operationIn (environment : Environment) (handled : account.Handled environment.schema)
    (atOnce : account.WritesAtOnce environment.schema)
    (unbroken : Unbroken environment.schema known) (order : RootOrder) {root : TypeId}
    (knownRoot : known root) :
    (operationIn ⟨environment, true⟩ order root).Stops account
      (operationIn ⟨environment, false⟩ order root) := by
  unfold operationIn
  refine stops_andThen (stops_act _ fun result _ => ?_) (fun outcome => ?_) passes_settleRoot
    passes_settleRoot
  · cases result with
    | error failure => exact stops_fail _
    | ok collected => exact stops_rootFields handled atOnce unbroken order knownRoot collected
  · unfold settleRoot
    split
    · exact stops_perform _ (stops_succeed _)
    · exact stops_done _

end Execution

end

end GraphQL
