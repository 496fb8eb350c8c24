import GraphQL.Proofs.Located
import GraphQL.Proofs.Points

/-!
What is looked up. Whatever an operation looks up among the remembered fields, it looks up as the
fields that some nodes select on a type of the schema.
-/

namespace GraphQL

namespace Completion

theorem subfields_andThen (setting : Setting) (type : TypeId) (nodes : List FieldNode)
    (next : Except Failure Collected → Program) (last : Outcome → Program) :
    (subfields setting type nodes next).andThen last
      = subfields setting type nodes fun result => (next result).andThen last := by
  simp only [subfields, Program.andThen]
  refine congrArg _ (funext fun found => ?_)
  cases found with
  | some fields => rfl
  | none =>
      rw [Program.act_andThen]
      refine congrArg _ (funext fun result => ?_)
      cases result with
      | ok fields => rfl
      | error failure => rfl

end Completion

/-- Looks up the fields that nodes select on a known type. -/
def Setting.LooksUp (setting : Setting) (known : TypeId → Prop) (program : Program) : Prop :=
  ∃ type nodes next, known type ∧ program = Completion.subfields setting type nodes next

theorem Setting.LooksUp.andThen {setting : Setting} {known : TypeId → Prop} {program : Program}
    (looks : setting.LooksUp known program) (last : Outcome → Program) :
    setting.LooksUp known (program.andThen last) := by
  obtain ⟨type, nodes, next, knownType, rfl⟩ := looks
  exact ⟨type, nodes, _, knownType, Completion.subfields_andThen setting type nodes next last⟩

section

variable (setting : Setting) (known : TypeId → Prop)

namespace Program

mutual

/-- A program in which nothing is looked up but the fields that nodes select on a known type. -/
@[simp] def Consults : Program → Prop
  | .done _ => True
  | .call _ next => ∀ reply, (next reply).Consults
  | .perform _ next => next.Consults
  | .consult key next =>
    setting.LooksUp known (.consult key next) ∧ ∀ found, (next found).Consults
  | .drain _ next => ∀ items fault, (next items fault).Consults
  | .wait _ next => ∀ result, (next result).Consults
  | .join children next => ConsultEach children ∧ ∀ settled, (next settled).Consults

@[simp] def ConsultEach : List Program → Prop
  | [] => True
  | program :: rest => program.Consults ∧ ConsultEach rest

end

end Program

namespace Process

mutual

/-- A process that will look up nothing else. -/
@[simp] def Consults : Process → Prop
  | finished _ => True
  | waiting _ next => ∀ result, (next result).Consults setting known
  | joining children next => ConsultEach children ∧ ∀ settled, (next settled).Consults setting known

@[simp] def ConsultEach : List Process → Prop
  | [] => True
  | process :: rest => process.Consults ∧ ConsultEach rest

end

end Process

end

section

variable {setting : Setting} {known : TypeId → Prop}

namespace Program

theorem consultEach_iff (programs : List Program) :
    ConsultEach setting known programs ↔ ∀ program ∈ programs, program.Consults setting known := by
  induction programs with
  | nil => simp only [ConsultEach, List.not_mem_nil, false_imp_iff, implies_true]
  | cons program rest ih => simp only [ConsultEach, ih, List.forall_mem_cons]

theorem consults_fail (failure : Failure) : (fail failure).Consults setting known := by
  simp only [fail, Consults]

theorem consults_succeed (value : Value) : (succeed value).Consults setting known := by
  simp only [succeed, Consults]

theorem consults_act {α : Type} (action : Action α) {next : Except Failure α → Program}
    (each : ∀ result, (next result).Consults setting known) :
    (act action next).Consults setting known := by
  induction action with
  | done result => exact each result
  | call asked reply ih =>
      simp only [act, Consults]
      exact ih

theorem consults_andThen (program : Program) {next : Outcome → Program}
    (first : program.Consults setting known)
    (second : ∀ outcome, (next outcome).Consults setting known) :
    (program.andThen next).Consults setting known := by
  match program with
  | done outcome => exact second outcome
  | call asked reply =>
      simp only [andThen, Consults] at first ⊢
      exact fun answer => consults_andThen (reply answer) (first answer) second
  | perform effect rest =>
      simp only [andThen, Consults] at first ⊢
      exact consults_andThen rest first second
  | consult key rest =>
      simp only [andThen, Consults] at first ⊢
      exact ⟨first.1.andThen next, fun found => consults_andThen (rest found) (first.2 found) second⟩
  | drain handle rest =>
      simp only [andThen, Consults] at first ⊢
      exact fun items fault => consults_andThen (rest items fault) (first items fault) second
  | wait tickets rest =>
      simp only [andThen, Consults] at first ⊢
      exact fun result => consults_andThen (rest result) (first result) second
  | join children rest =>
      simp only [andThen, Consults] at first ⊢
      exact ⟨first.1, fun settled => consults_andThen (rest settled) (first.2 settled) second⟩

theorem consults_onSuccess {next : Value → Program}
    (each : ∀ value, (next value).Consults setting known) (outcome : Outcome) :
    (onSuccess next outcome).Consults setting known := by
  cases outcome with
  | ok value => exact each value
  | error failure => exact consults_fail failure

theorem consults_await (ticket : Nat) {next : Outcome → Program}
    (each : ∀ outcome, (next outcome).Consults setting known) :
    (await ticket next).Consults setting known := by
  simp only [await, Consults]
  intro result
  cases result with
  | ok values => exact each _
  | error failure => exact each _

theorem consults_closing (tickets : List Nat) {next : Program}
    (consults : next.Consults setting known) : (closing tickets next).Consults setting known := by
  unfold closing
  split
  · exact consults
  · simpa only [Consults] using consults

theorem consults_receive (taking : Setting) (value : Value) {next : Outcome → Program}
    (each : ∀ outcome, (next outcome).Consults setting known) :
    (receive taking value next).Consults setting known := by
  unfold receive
  split
  · split
    · exact consults_closing _ (each _)
    · exact consults_await _ each
  · exact each _

theorem consults_bubble (first : Failure) (failures : List Failure) :
    (bubble first failures).Consults setting known := by
  induction failures with
  | nil => exact consults_fail first
  | cons failure rest ih =>
      unfold bubble
      split
      · exact consults_fail _
      · next same =>
          cases same
          simpa only [Consults] using ih
      · exact consults_fail _

theorem consults_gathered (build : List Value → Value) (settled : Except Failure (List Outcome)) :
    (gathered build settled).Consults setting known := by
  unfold gathered
  split
  · exact consults_fail _
  · split
    · exact consults_succeed _
    · exact consults_bubble _ _

theorem consults_settle (type : TypeRef) (nodes : List FieldNode) (path : ResponsePath)
    (outcome : Outcome) : (settle type nodes path outcome).Consults setting known := by
  unfold settle
  split
  · exact consults_succeed _
  · split
    · exact consults_fail _
    · simp only
      split
      · exact consults_fail _
      · simpa only [Consults] using consults_succeed _

end Program

open Program

theorem Slot.consults_call (slot : Slot) (asked : Nat → Call) {next : Reply → Program}
    (each : ∀ reply, (next reply).Consults setting known) :
    (slot.call asked next).Consults setting known := by
  cases slot with
  | function id => simpa only [call, Consults] using each
  | other value => exact each _
  | absent => exact each _

namespace RuntimeType

theorem consults_decideDeferred (deferred : List (TypeId × Nat))
    {next : Except Failure (Option TypeId) → Program}
    (each : ∀ result, (next result).Consults setting known) :
    (decideDeferred setting deferred next).Consults setting known := by
  unfold decideDeferred
  simp only
  split
  · exact each _
  · split
    · exact consults_closing _ (each _)
    · simp only [Consults]
      intro result
      cases result with
      | ok values => exact each _
      | error failure => exact each _

theorem consults_askTypes (info : Info) (value : Value)
    {next : Except Failure (Option TypeId) → Program}
    (each : ∀ result, (next result).Consults setting known) (tests : List (TypeId × Slot))
    (deferred : List (TypeId × Nat)) :
    (askTypes setting info value next tests deferred).Consults setting known := by
  induction tests generalizing deferred with
  | nil => exact consults_decideDeferred deferred each
  | cons test rest ih =>
      obtain ⟨type, slot⟩ := test
      unfold askTypes
      refine Slot.consults_call slot _ fun reply => ?_
      split
      · exact each _
      · exact ih _
      · split
        · exact consults_closing _ (each _)
        · exact ih _

theorem consults_answered {next : Outcome → Program}
    (each : ∀ outcome, (next outcome).Consults setting known) (reply : Reply) :
    (match reply with
      | .ok found => receive setting found next
      | .error failure => next (.error failure)).Consults setting known := by
  cases reply with
  | ok found => exact consults_receive setting found each
  | error failure => exact each _

theorem consults_find (info : Info) (abstract : TypeId) (value : Value) {next : Outcome → Program}
    (each : ∀ outcome, (next outcome).Consults setting known) :
    (find setting info abstract value next).Consults setting known := by
  unfold find
  simp only
  split
  · exact Slot.consults_call _ _ (consults_answered each)
  · split
    · simp only [Consults]
      exact fun reply => consults_answered each reply
    · unfold byDefault
      split
      · exact each _
      · split
        · exact each _
        · refine consults_askTypes info value (fun result => ?_) _ _
          cases result with
          | ok found =>
              cases found with
              | some type => exact each _
              | none => exact each _
          | error failure => exact each _

end RuntimeType

/-- Execution of the selections on objects of known types looks up nothing else. -/
def BelowConsults (setting : Setting) (known : TypeId → Prop) (below : Completion.Subfields) : Prop :=
  ∀ type value path fields, known type → (below type value path fields).Consults setting known

namespace Completion

theorem consults_leaf (type : TypeId) (value : Value) :
    (leaf setting type value).Consults setting known := by
  unfold leaf
  refine consults_act _ fun result => ?_
  split
  · exact consults_fail _
  · exact consults_await _ fun outcome => by simp only [Consults]
  · split
    · exact consults_fail _
    · exact consults_succeed _

theorem consults_subfields (type : TypeId) (nodes : List FieldNode) (knownType : known type)
    {next : Except Failure Collected → Program}
    (each : ∀ result, (next result).Consults setting known) :
    (subfields setting type nodes next).Consults setting known := by
  have looks : setting.LooksUp known (subfields setting type nodes next) :=
    ⟨type, nodes, next, knownType, rfl⟩
  simp only [subfields, Consults] at looks ⊢
  refine ⟨looks, fun found => ?_⟩
  cases found with
  | some fields => exact each _
  | none =>
      refine consults_act _ fun result => ?_
      cases result with
      | ok fields => simpa only [Consults] using each _
      | error failure => exact each _

variable {below : Subfields}

theorem consults_object (consults : BelowConsults setting known below) (info : Info) (type : TypeId)
    (path : ResponsePath) (value : Value) (knownType : known type) :
    (object setting below info type path value).Consults setting known := by
  have execute : (executeSubfields setting below info type path value).Consults setting known := by
    refine consults_subfields type info.nodes knownType fun result => ?_
    cases result with
    | ok fields => exact consults type value path fields knownType
    | error failure => exact consults_fail _
  unfold object
  simp only
  split
  · exact execute
  · refine Slot.consults_call _ _ fun reply => ?_
    refine consults_onSuccess (fun result => consults_receive setting result fun outcome => ?_) reply
    refine consults_onSuccess (fun holds => ?_) outcome
    split
    · exact execute
    · exact consults_fail _

theorem consults_abstract (closed : Closed setting.schema known)
    (consults : BelowConsults setting known below) (info : Info) (type : TypeId)
    (path : ResponsePath) (value : Value) :
    (abstract setting below info type path value).Consults setting known := by
  unfold abstract
  refine RuntimeType.consults_find info type value fun outcome => ?_
  refine consults_onSuccess (fun found => ?_) outcome
  split
  · next id checked =>
      have possible := RuntimeType.possible_of_check info type value found id checked
      exact consults_object consults info id path value (closed.possible type id possible.1 possible.2)
  · exact consults_fail _

theorem consults_named (closed : Closed setting.schema known)
    (consults : BelowConsults setting known below) (info : Info) (type : TypeId)
    (path : ResponsePath) (value : Value)
    (knownType : setting.schema.kindOf type = .object → known type) :
    (named setting below info type path value).Consults setting known := by
  unfold named
  split
  · exact consults_leaf _ _
  · exact consults_leaf _ _
  · exact consults_abstract closed consults info type path value
  · exact consults_abstract closed consults info type path value
  · next kind => exact consults_object consults info type path value (knownType kind)
  · exact consults_fail _

theorem consults_items (info : Info) (type : TypeRef) (path : ResponsePath)
    {complete : ResponsePath → Value → Program}
    (each : ∀ place value, (complete place value).Consults setting known) (values : List Value) :
    (items setting info type path complete values).Consults setting known := by
  unfold items
  simp only
  split
  · exact consults_fail _
  · simp only [Consults, consultEach_iff, List.mem_map]
    refine ⟨?_, fun settled => consults_gathered _ _⟩
    rintro program ⟨⟨item, index⟩, _, rfl⟩
    refine consults_andThen _ (consults_receive setting item fun outcome => ?_) fun outcome => ?_
    · exact consults_onSuccess (fun value => each _ value) outcome
    · exact consults_settle _ _ _ _

theorem consults_list (info : Info) (type : TypeRef) (path : ResponsePath)
    {complete : ResponsePath → Value → Program}
    (each : ∀ place value, (complete place value).Consults setting known) (value : Value) :
    (list setting info type path complete value).Consults setting known := by
  unfold list
  split
  · simp only [Consults]
    intro values fault
    split
    · exact consults_items info type path each values
    · split
      · exact consults_fail _
      · exact consults_closing _ (consults_fail _)
  · split
    · exact consults_items info type path each _
    · exact consults_fail _

theorem consults_complete (closed : Closed setting.schema known)
    (consults : BelowConsults setting known below) (info : Info) (type : TypeRef)
    (path : ResponsePath) (value : Value)
    (knownType : ∀ id, type.innermost = .ok id → setting.schema.kindOf id = .object → known id) :
    (complete setting below info type path value).Consults setting known := by
  induction type generalizing path value with
  | named id =>
      unfold complete
      split
      · exact consults_fail _
      · simp only
        split
        · exact consults_succeed _
        · exact consults_named closed consults info id path value (knownType id rfl)
  | list of ih =>
      unfold complete
      split
      · exact consults_fail _
      · simp only
        split
        · exact consults_succeed _
        · exact consults_list info of path (fun place item => ih place item knownType) value
  | nonNull of ih =>
      unfold complete
      split
      · exact consults_fail _
      · refine consults_andThen _ (ih path value knownType) fun outcome => ?_
        refine consults_onSuccess (fun completed => ?_) outcome
        split
        · exact consults_fail _
        · exact consults_succeed _
  | broken fault =>
      unfold complete
      split
      · exact consults_fail _
      · exact consults_fail _

end Completion

namespace Execution

variable {below : Completion.Subfields}

theorem consults_resolve (field : Field) (source arguments : Value) (info : Info)
    {next : Reply → Program} (each : ∀ reply, (next reply).Consults setting known) :
    (resolve setting field source arguments info next).Consults setting known := by
  unfold resolve
  split
  · exact each _
  · split
    · exact Slot.consults_call _ _ each
    · split
      · simpa only [Consults] using each
      · unfold resolveByName
        split
        · simpa only [Consults] using each
        · exact each _
        · exact each _

theorem consults_fieldValue (closed : Closed setting.schema known)
    (consults : BelowConsults setting known below) (field : Field) (type : TypeRef) (source : Value)
    (info : Info) (node : FieldNode)
    (knownType : ∀ id, type.innermost = .ok id → setting.schema.kindOf id = .object → known id) :
    (fieldValue setting below field type source info node).Consults setting known := by
  unfold fieldValue
  refine consults_act _ fun result => ?_
  cases result with
  | error failure => exact consults_fail _
  | ok bound =>
      simp only [Consults]
      refine consults_resolve field source _ info fun reply => ?_
      refine consults_onSuccess (fun value => ?_) reply
      simp only [Consults]
      refine consults_receive setting value fun outcome => ?_
      refine consults_onSuccess (fun received => ?_) outcome
      exact Completion.consults_complete closed consults info type info.path received knownType

theorem consults_field? (closed : Closed setting.schema known)
    (consults : BelowConsults setting known below) (parent : TypeId) (source : Value)
    (path : ResponsePath) (nodes : List FieldNode) (knownParent : known parent) (program : Program)
    (found : field? setting below parent source path nodes = some program) :
    program.Consults setting known := by
  unfold field? at found
  rw [Option.bind_eq_some_iff] at found
  rcases found with ⟨node, _, found⟩
  split at found
  · cases found
    exact consults_fail _
  · cases found
  · next field declared =>
      split at found
      · cases found
        exact consults_fail _
      · next type typed =>
          cases found
          refine consults_andThen _ ?_ fun outcome => consults_settle _ _ _ _
          exact consults_fieldValue closed consults field type source _ node
            fun id => closed.field parent node.name field type id knownParent declared typed

theorem consults_fieldPrograms (closed : Closed setting.schema known)
    (consults : BelowConsults setting known below) (parent : TypeId) (source : Value)
    (path : Option ResponsePath) (fields : Collected) (knownParent : known parent) :
    ∀ entry ∈ fieldPrograms setting below parent source path fields,
      entry.2.Consults setting known := by
  intro entry member
  rcases List.mem_filterMap.1 member with ⟨⟨key, nodes⟩, _, made⟩
  rw [Option.map_eq_some_iff] at made
  rcases made with ⟨program, found, rfl⟩
  exact consults_field? closed consults parent source _ nodes knownParent program found

theorem consults_fields (closed : Closed setting.schema known) (levels : Nat) (parent : TypeId)
    (source : Value) (path : Option ResponsePath) (collected : Collected)
    (knownParent : known parent) :
    (fields setting levels parent source path collected).Consults setting known := by
  induction levels generalizing parent source path collected with
  | zero => exact consults_fail _
  | succ levels ih =>
      have programs := consults_fieldPrograms closed
        (fun type value place selected knownType => ih type value (some place) selected knownType)
        parent source path collected knownParent
      simp only [fields, Consults, consultEach_iff, List.mem_map]
      refine ⟨?_, fun settled => consults_gathered _ _⟩
      rintro program ⟨entry, member, rfl⟩
      exact programs entry member

theorem consults_inTurn {next : Except Failure (List Outcome) → Program}
    (each : ∀ settled, (next settled).Consults setting known) (programs : List Program)
    (settled : List Outcome) (consults : ∀ program ∈ programs, program.Consults setting known) :
    (inTurn next programs settled).Consults setting known := by
  induction programs generalizing settled with
  | nil => exact each _
  | cons program rest ih =>
      have later := fun settled => ih settled fun other member =>
        consults other (List.mem_cons_of_mem _ member)
      refine consults_andThen _ (consults program List.mem_cons_self) fun outcome => ?_
      split
      · exact later _
      · exact each _
      · exact later _

theorem consults_operationIn (closed : Closed setting.schema known) (order : RootOrder)
    {root : TypeId} (knownRoot : known root) :
    (operationIn setting order root).Consults setting known := by
  unfold operationIn
  refine consults_andThen _ (consults_act _ fun result => ?_) fun outcome => ?_
  · cases result with
    | error failure => exact consults_fail _
    | ok collected =>
        cases order with
        | sideBySide => exact consults_fields closed _ root _ none collected knownRoot
        | inTurn =>
            refine consults_inTurn (fun settled => consults_gathered _ _) _ _ fun program member => ?_
            rcases List.mem_map.1 member with ⟨entry, inside, rfl⟩
            exact consults_fieldPrograms closed
              (fun type value place selected knownType =>
                consults_fields closed _ type value (some place) selected knownType)
              root _ none collected knownRoot entry inside
  · unfold settleRoot
    split
    · simpa only [Consults] using consults_succeed _
    · simp only [Consults]

end Execution

namespace Process

variable {σ : Type} {application : Application σ}

theorem consultEach_iff (processes : List Process) :
    ConsultEach setting known processes
      ↔ ∀ process ∈ processes, process.Consults setting known := by
  induction processes with
  | nil => simp only [ConsultEach, List.not_mem_nil, false_imp_iff, implies_true]
  | cons process rest ih => simp only [ConsultEach, ih, List.forall_mem_cons]

theorem Started.consults {program : Program} {process : Process} (started : Started program process)
    (consults : program.Consults setting known) : process.Consults setting known := by
  induction started with
  | done outcome => simp only [Consults]
  | call reply _ ih =>
      simp only [Program.Consults] at consults
      exact ih (consults reply)
  | perform _ ih =>
      simp only [Program.Consults] at consults
      exact ih consults
  | consult found _ ih =>
      simp only [Program.Consults] at consults
      exact ih (consults.2 found)
  | drain items fault _ ih =>
      simp only [Program.Consults] at consults
      exact ih (consults items fault)
  | wait slots => simpa only [Program.Consults, Consults] using consults
  | waited result _ ih =>
      simp only [Program.Consults] at consults
      exact ih (consults result)
  | join origin inside each ih =>
      simp only [Program.Consults, Program.consultEach_iff] at consults
      simp only [Consults, consultEach_iff]
      exact ⟨fun process member => ih process member (consults.1 _ (inside process member)),
        consults.2⟩
  | joined settled _ ih =>
      simp only [Program.Consults] at consults
      exact ih (consults.2 settled)

theorem Follows.consults {after before : Process} (follows : Follows after before)
    (consults : before.Consults setting known) : after.Consults setting known := by
  induction follows with
  | arrived fewer => simpa only [Consults] using consults
  | waited result started =>
      simp only [Consults] at consults
      exact started.consults (consults result)
  | child _ ih =>
      simp only [Consults, consultEach_iff, List.forall_mem_append, List.forall_mem_cons] at consults ⊢
      exact ⟨⟨consults.1.1, ih consults.1.2.1, consults.1.2.2⟩, consults.2⟩
  | joined settled started =>
      simp only [Consults] at consults
      exact started.consults (consults.2 settled)

variable {program point : Program} {process : Process} {world moment : World σ}

theorem Passes.consults (passes : Passes application program world point moment)
    (consults : program.Consults setting known) : point.Consults setting known := by
  induction passes with
  | here program world => exact consults
  | call _ ih =>
      simp only [Program.Consults] at consults
      exact ih (consults _)
  | perform _ ih =>
      simp only [Program.Consults] at consults
      exact ih consults
  | consult _ ih =>
      simp only [Program.Consults] at consults
      exact ih (consults.2 _)
  | drain _ ih =>
      simp only [Program.Consults] at consults
      exact ih (consults _ _)
  | unawaited _ ih =>
      simp only [Program.Consults] at consults
      exact ih (consults _)
  | child turn _ ih =>
      simp only [Program.Consults, Program.consultEach_iff] at consults
      exact ih (consults.1 _ turn.mem)
  | broken _ _ ih =>
      simp only [Program.Consults] at consults
      exact ih (consults.2 _)
  | settled _ _ _ ih =>
      simp only [Program.Consults] at consults
      exact ih (consults.2 _)

theorem Resumes.consults {waiter : Nat} {reply : Reply}
    (resumes : Resumes application waiter reply process world program moment)
    (consults : process.Consults setting known) : program.Consults setting known := by
  induction resumes with
  | failed waits same =>
      simp only [Consults] at consults
      exact consults _
  | arrived waits same all =>
      simp only [Consults] at consults
      exact consults _
  | child _ _ ih =>
      simp only [Consults, consultEach_iff, List.forall_mem_append, List.forall_mem_cons] at consults
      exact ih consults.1.2.1
  | settled resumed all =>
      simp only [Consults] at consults
      exact consults.2 _

theorem consults_step? {after : Process × World σ}
    (step : step? application process world = some after)
    (consults : process.Consults setting known) : after.1.Consults setting known := by
  have unfinished : ∀ outcome, process ≠ finished outcome := by
    rintro outcome rfl
    cases step
  rw [step?_of_unfinished unfinished] at step
  obtain ⟨timer, _, rfl⟩ := Option.map_eq_some_iff.1 step
  cases resumed : resume application timer.waiter (world.fire application timer).1 process
      (world.fire application timer).2 with
  | none => simpa only [wake, resumed, Option.getD_none] using consults
  | some later =>
      simpa only [wake, resumed, Option.getD_some] using
        (follows_resume application _ _ process _ later resumed).consults consults

theorem Begins.consults (begins : Begins application process world program moment)
    (consults : process.Consults setting known) : program.Consults setting known := by
  induction begins with
  | now found resumes => exact resumes.consults consults
  | later step _ ih => exact ih (consults_step? step consults)

/-- Whatever a run comes upon looks up what its program does. -/
theorem ComesUpon.consults (comes : ComesUpon application program world point moment)
    (consults : program.Consults setting known) : point.Consults setting known := by
  cases comes with
  | start passes => exact passes.consults consults
  | run begins passes =>
      exact passes.consults (begins.consults ((started_begin application _ _).consults consults))

end Process

end

end GraphQL
