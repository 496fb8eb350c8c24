import GraphQL.Proofs.Completing
import GraphQL.Proofs.Owing

/-!
Executions to which nothing deferred is handed over. They wait for nothing, whatever else the
application answers, so they are over as soon as they have been started.
-/

namespace GraphQL

/-- The deferred results that an effect tells of. -/
def Effect.hands : Effect → List Nat
  | .resolved _ value => value.ticket?.toList
  | .listed _ items => items.filterMap Value.ticket?
  | _ => []

namespace Program

mutual

/-- A program that waits for nothing, as long as no deferred result is handed over to it. -/
@[simp] def Direct (account : Account) : Program → Prop
  | .done _ => True
  | .call asked next =>
    ∀ reply, account.called asked reply → asked.hands reply = [] → (next reply).Direct account
  | .perform effect next => effect.hands = [] → next.Direct account
  | .consult _ next => ∀ found, (next found).Direct account
  | .drain _ next => ∀ items fault, (next items fault).Direct account
  | .wait _ _ => False
  | .join children next => DirectEach account children ∧ ∀ settled, (next settled).Direct account

@[simp] def DirectEach (account : Account) : List Program → Prop
  | [] => True
  | program :: rest => program.Direct account ∧ DirectEach account rest

end

end Program

namespace Process

variable {σ : Type}

variable {application : Application σ} {final : World σ}

mutual

/-- Where nothing deferred is handed over, a direct program is over as soon as it has been started. -/
theorem CarriedTo.finished_of_direct {program : Program} {world after : World σ} {process : Process}
    (carried : CarriedTo application program world process after)
    (free : ∀ ticket, ¬ final.HandedOver ticket) (leads : after.Leads final)
    (direct : program.Direct final.account) : ∃ outcome, process = finished outcome := by
  have empty {event : Event} (saw : final.Saw event) : event.hands = [] :=
    List.eq_nil_iff_forall_not_mem.2 fun ticket handed => free ticket ⟨event, saw, handed⟩
  match carried with
  | .done outcome _ => exact ⟨outcome, rfl⟩
  | .call asked rest =>
      simp only [Program.Direct] at direct
      have saw := (rest.leads.trans leads).saw (World.saw_ask application asked world)
      exact rest.finished_of_direct free leads (direct _ saw (empty saw))
  | .perform effect rest =>
      simp only [Program.Direct] at direct
      have onward := rest.leads.trans leads
      refine rest.finished_of_direct free leads (direct ?_)
      cases effect with
      | resolved path value => exact empty (onward.saw (World.saw_note world _))
      | listed path items => exact empty (onward.saw (World.saw_note world _))
      | _ => rfl
  | .consult _ rest =>
      simp only [Program.Direct] at direct
      exact rest.finished_of_direct free leads (direct _)
  | .drain _ rest =>
      simp only [Program.Direct] at direct
      exact rest.finished_of_direct free leads (direct _ _)
  | .unawaited _ => simp only [Program.Direct] at direct
  | .wait _ _ _ _ => simp only [Program.Direct] at direct
  | .broken _ _ rest =>
      simp only [Program.Direct] at direct
      exact rest.finished_of_direct free leads (direct.2 _)
  | .settled _ _ rest =>
      simp only [Program.Direct] at direct
      exact rest.finished_of_direct free leads (direct.2 _)
  | .join each pending =>
      simp only [Program.Direct] at direct
      obtain ⟨outcomes, rfl⟩ := each.finished_of_direct free leads direct.1
      rw [outcomes?_map_finished] at pending
      cases pending

theorem CarriedToEach.finished_of_direct {programs : List Program} {world after : World σ}
    {processes : List Process} (each : CarriedToEach application programs world processes after)
    (free : ∀ ticket, ¬ final.HandedOver ticket) (leads : after.Leads final)
    (direct : Program.DirectEach final.account programs) :
    ∃ outcomes : List Outcome, processes = outcomes.map finished := by
  match each with
  | .nil _ => exact ⟨[], rfl⟩
  | .cons head _ rest =>
      simp only [Program.DirectEach] at direct
      obtain ⟨outcome, rfl⟩ := head.finished_of_direct free (rest.leads.trans leads) direct.1
      obtain ⟨outcomes, rfl⟩ := rest.finished_of_direct free leads direct.2
      exact ⟨outcome :: outcomes, rfl⟩

end

end Process

section

variable {setting : Setting} {account : Account} {known : TypeId → Prop}

namespace Program

theorem directEach_iff (programs : List Program) :
    DirectEach account programs ↔ ∀ program ∈ programs, program.Direct account := by
  induction programs with
  | nil => simp only [DirectEach, List.not_mem_nil, false_imp_iff, implies_true]
  | cons program rest ih => simp only [DirectEach, ih, List.forall_mem_cons]

theorem direct_fail (failure : Failure) : (fail failure).Direct account := by
  simp only [fail, Direct]

theorem direct_succeed (value : Value) : (succeed value).Direct account := by
  simp only [succeed, Direct]

theorem direct_call (asked : Call) {next : Reply → Program}
    (refused : ∀ failure, (next (.error failure)).Direct account)
    (each : ∀ value, asked.hands (.ok value) = [] → (next (.ok value)).Direct account) :
    (call asked next).Direct account := by
  simp only [Direct]
  intro reply _ none_
  cases reply with
  | ok value => exact each value none_
  | error failure => exact refused failure

theorem direct_perform (effect : Effect) {next : Program} (direct : next.Direct account) :
    (perform effect next).Direct account := by
  simp only [Direct]
  exact fun _ => direct

theorem direct_act {α : Type} (action : Action α) {next : Except Failure α → Program}
    (each : ∀ result, action.Yields account result → (next result).Direct account) :
    (act action next).Direct account := by
  induction action with
  | done result => exact each result rfl
  | call asked reply ih =>
      simp only [act, Direct]
      exact fun answer called _ => ih answer fun result yields =>
        each result ⟨answer, called, yields⟩

theorem direct_andThen (program : Program) {next : Outcome → Program}
    (first : program.Direct account) (second : ∀ outcome, (next outcome).Direct account) :
    (program.andThen next).Direct account := by
  match program with
  | done outcome => exact second outcome
  | call asked reply =>
      simp only [andThen, Direct] at first ⊢
      exact fun answer called none_ => direct_andThen (reply answer) (first answer called none_) second
  | perform effect rest =>
      simp only [andThen, Direct] at first ⊢
      exact fun none_ => direct_andThen rest (first none_) second
  | consult key rest =>
      simp only [andThen, Direct] at first ⊢
      exact fun found => direct_andThen (rest found) (first found) second
  | drain handle rest =>
      simp only [andThen, Direct] at first ⊢
      exact fun items fault => direct_andThen (rest items fault) (first items fault) second
  | wait tickets rest =>
      simp only [Direct] at first
  | join children rest =>
      simp only [andThen, Direct] at first ⊢
      exact ⟨first.1, fun settled => direct_andThen (rest settled) (first.2 settled) second⟩

theorem direct_onSuccess {next : Value → Program} (outcome : Outcome)
    (each : ∀ value, (next value).Direct account) : (onSuccess next outcome).Direct account := by
  cases outcome with
  | ok value => exact each value
  | error failure => exact direct_fail failure

theorem direct_closing (tickets : List Nat) {next : Program} (direct : next.Direct account) :
    (closing tickets next).Direct account := by
  unfold closing
  split
  · exact direct
  · exact direct_perform _ direct

theorem direct_receive (taking : Setting) {value : Value} (present : value.ticket? = none)
    {next : Outcome → Program} (each : (next (.ok value)).Direct account) :
    (receive taking value next).Direct account := by
  cases value with
  | deferred ticket => cases present
  | _ => exact each

theorem direct_bubble (first : Failure) (failures : List Failure) :
    (bubble first failures).Direct account := by
  induction failures with
  | nil => exact direct_fail first
  | cons failure rest ih =>
      unfold bubble
      split
      · exact direct_fail _
      · next same =>
          cases same
          exact direct_perform _ ih
      · exact direct_fail _

theorem direct_gathered (build : List Value → Value) (settled : Except Failure (List Outcome)) :
    (gathered build settled).Direct account := by
  unfold gathered
  split
  · exact direct_fail _
  · split
    · exact direct_succeed _
    · exact direct_bubble _ _

theorem direct_settle (type : TypeRef) (nodes : List FieldNode) (path : ResponsePath)
    (outcome : Outcome) : (settle type nodes path outcome).Direct account := by
  unfold settle
  split
  · exact direct_succeed _
  · split
    · exact direct_fail _
    · simp only
      split
      · exact direct_fail _
      · exact direct_perform _ (direct_succeed _)

end Program

open Program

theorem Slot.direct_call (slot : Slot) (asked : Nat → Call) {next : Reply → Program}
    (refused : ∀ failure, (next (.error failure)).Direct account)
    (each : ∀ id value, (asked id).hands (.ok value) = [] → (next (.ok value)).Direct account) :
    (slot.call asked next).Direct account := by
  cases slot with
  | function id => exact Program.direct_call _ refused (each id)
  | other value => exact refused _
  | absent => exact refused _

namespace RuntimeType

theorem direct_askTypes (info : Info) (value : Value)
    {next : Except Failure (Option TypeId) → Program}
    (each : ∀ result, (next result).Direct account) (tests : List (TypeId × Slot)) :
    (askTypes setting info value next tests []).Direct account := by
  induction tests with
  | nil => exact each _
  | cons test rest ih =>
      obtain ⟨type, slot⟩ := test
      unfold askTypes
      refine Slot.direct_call slot _ (fun failure => each _) fun id found none_ => ?_
      cases found with
      | deferred ticket => cases none_
      | _ =>
          dsimp only
          split
          · exact direct_closing _ (each _)
          · exact ih

theorem direct_find (info : Info) (abstract : TypeId) (value : Value) {next : Outcome → Program}
    (each : ∀ outcome, (next outcome).Direct account) :
    (find setting info abstract value next).Direct account := by
  unfold find
  simp only
  split
  · exact Slot.direct_call _ _ (fun failure => each _) fun id found none_ =>
      direct_receive setting (Option.toList_eq_nil_iff.1 none_) (each _)
  · split
    · exact direct_call _ (fun failure => each _) fun found none_ =>
        direct_receive setting (Option.toList_eq_nil_iff.1 none_) (each _)
    · unfold byDefault
      split
      · exact each _
      · split
        · exact each _
        · refine direct_askTypes info value (fun result => ?_) _
          cases result with
          | ok found => cases found <;> exact each _
          | error failure => exact each _

end RuntimeType

/-- Execution of the selections on objects of known types is direct. -/
def BelowDirect (account : Account) (known : TypeId → Prop) (below : Completion.Subfields) : Prop :=
  ∀ type value path fields, known type → (below type value path fields).Direct account

namespace Completion

theorem direct_leaf (plain : setting.schema.WritesPlain account) (type : TypeId) (value : Value)
    (written : setting.schema.Writes (setting.schema.leafInEffect type)) :
    (leaf setting type value).Direct account := by
  refine direct_act _ fun result yields => ?_
  split
  · exact direct_fail _
  · cases plain _ value _ written yields
  · split
    · exact direct_fail _
    · exact direct_succeed _

variable {below : Subfields}

theorem direct_object (direct : BelowDirect account known below) (info : Info) (type : TypeId)
    (path : ResponsePath) (value : Value) (knownType : known type) :
    (object setting below info type path value).Direct account := by
  have execute : (executeSubfields setting below info type path value).Direct account := by
    simp only [executeSubfields, subfields, Direct]
    intro found
    cases found with
    | some fields => exact direct type value path fields knownType
    | none =>
        refine direct_act _ fun result _ => ?_
        cases result with
        | ok fields => exact direct_perform _ (direct type value path fields knownType)
        | error failure => exact direct_fail _
  unfold object
  simp only
  split
  · exact execute
  · refine Slot.direct_call _ _ (fun failure => direct_fail _) fun id result none_ => ?_
    refine direct_receive setting (Option.toList_eq_nil_iff.1 none_) ?_
    refine direct_onSuccess _ fun holds => ?_
    split
    · exact execute
    · exact direct_fail _

theorem direct_abstract (closed : Closed setting.schema known)
    (direct : BelowDirect account known below) (info : Info) (type : TypeId) (path : ResponsePath)
    (value : Value) : (abstract setting below info type path value).Direct account := by
  refine RuntimeType.direct_find info type value fun outcome => ?_
  refine direct_onSuccess outcome fun found => ?_
  split
  · next id checked =>
      have possible := RuntimeType.possible_of_check info type value found id checked
      exact direct_object direct info id path value (closed.possible type id possible.1 possible.2)
  · exact direct_fail _

theorem direct_named (plain : setting.schema.WritesPlain account)
    (closed : Closed setting.schema known) (direct : BelowDirect account known below) (info : Info)
    (type : TypeId) (path : ResponsePath) (value : Value)
    (written : setting.schema.Writes (setting.schema.leafInEffect type))
    (knownType : setting.schema.kindOf type = .object → known type) :
    (named setting below info type path value).Direct account := by
  unfold named
  split
  · exact direct_leaf plain type value written
  · exact direct_leaf plain type value written
  · exact direct_abstract closed direct info type path value
  · exact direct_abstract closed direct info type path value
  · next kind => exact direct_object direct info type path value (knownType kind)
  · exact direct_fail _

theorem direct_items (info : Info) (type : TypeRef) (path : ResponsePath)
    {complete : ResponsePath → Value → Program}
    (each : ∀ place value, (complete place value).Direct account) (values : List Value) :
    (items setting info type path complete values).Direct account := by
  unfold items
  simp only
  split
  · exact direct_fail _
  · simp only [Direct, directEach_iff, List.mem_map]
    refine fun none_ => ⟨?_, fun settled => direct_gathered _ _⟩
    rintro program ⟨⟨item, index⟩, member, rfl⟩
    have present : item.ticket? = none := by
      refine List.filterMap_eq_nil_iff.1 none_ item ?_
      exact List.fst_mem_of_mem_zipIdx member
    refine direct_andThen _ (direct_receive setting present ?_) fun outcome =>
      direct_settle _ _ _ _
    exact direct_onSuccess _ (each _)

theorem direct_list (info : Info) (type : TypeRef) (path : ResponsePath)
    {complete : ResponsePath → Value → Program}
    (each : ∀ place value, (complete place value).Direct account) (value : Value) :
    (list setting info type path complete value).Direct account := by
  unfold list
  split
  · simp only [Direct]
    intro values fault
    split
    · exact direct_items info type path each values
    · split
      · exact direct_fail _
      · exact direct_closing _ (direct_fail _)
  · split
    · exact direct_items info type path each _
    · exact direct_fail _

theorem direct_complete (plain : setting.schema.WritesPlain account)
    (closed : Closed setting.schema known) (direct : BelowDirect account known below) (info : Info)
    (type : TypeRef) (path : ResponsePath) (value : Value)
    (written : ∀ id, type.innermost = .ok id →
      setting.schema.Writes (setting.schema.leafInEffect id))
    (knownType : ∀ id, type.innermost = .ok id → setting.schema.kindOf id = .object → known id) :
    (complete setting below info type path value).Direct account := by
  induction type generalizing path value with
  | named id =>
      unfold complete
      split
      · exact direct_fail _
      · simp only
        split
        · exact direct_succeed _
        · exact direct_named plain closed direct info id path value (written id rfl) (knownType id rfl)
  | list of ih =>
      unfold complete
      split
      · exact direct_fail _
      · simp only
        split
        · exact direct_succeed _
        · exact direct_list info of path (fun place item => ih place item written knownType) value
  | nonNull of ih =>
      unfold complete
      split
      · exact direct_fail _
      · refine direct_andThen _ (ih path value written knownType) fun outcome => ?_
        refine direct_onSuccess outcome fun completed => ?_
        split
        · exact direct_fail _
        · exact direct_succeed _
  | broken fault =>
      unfold complete
      split
      · exact direct_fail _
      · exact direct_fail _

end Completion

namespace Execution

variable {below : Completion.Subfields}

theorem direct_resolve (field : Field) (source arguments : Value) (info : Info)
    {next : Reply → Program} (each : ∀ reply, (next reply).Direct account) :
    (resolve setting field source arguments info next).Direct account := by
  unfold resolve
  split
  · exact each _
  · split
    · exact Slot.direct_call _ _ (fun failure => each _) fun id value _ => each _
    · split
      · exact direct_call _ (fun failure => each _) fun value _ => each _
      · unfold resolveByName
        split
        · exact direct_call _ (fun failure => each _) fun value _ => each _
        · exact each _
        · exact each _

theorem direct_fieldValue (plain : setting.schema.WritesPlain account)
    (closed : Closed setting.schema known) (direct : BelowDirect account known below)
    (field : Field) (type : TypeRef) (source : Value) (info : Info) (node : FieldNode)
    (written : ∀ id, type.innermost = .ok id →
      setting.schema.Writes (setting.schema.leafInEffect id))
    (knownType : ∀ id, type.innermost = .ok id → setting.schema.kindOf id = .object → known id) :
    (fieldValue setting below field type source info node).Direct account := by
  refine direct_act _ fun result _ => ?_
  cases result with
  | error failure => exact direct_fail _
  | ok bound =>
      refine direct_perform _ (direct_resolve field source _ info fun reply => ?_)
      refine direct_onSuccess reply fun value => ?_
      simp only [Direct]
      intro none_
      refine direct_receive setting (Option.toList_eq_nil_iff.1 none_) ?_
      refine direct_onSuccess _ fun received => ?_
      exact Completion.direct_complete plain closed direct info type info.path received written
        knownType

theorem direct_fieldPrograms (plain : setting.schema.WritesPlain account)
    (sound : Sound setting.schema known) (direct : BelowDirect account known below)
    (parent : TypeId) (source : Value) (path : Option ResponsePath) (fields : Collected)
    (knownParent : known parent) :
    ∀ entry ∈ fieldPrograms setting below parent source path fields, entry.2.Direct account := by
  intro entry member
  rcases List.mem_filterMap.1 member with ⟨⟨key, nodes⟩, _, made⟩
  rw [Option.map_eq_some_iff] at made
  rcases made with ⟨program, found, rfl⟩
  unfold field? at found
  rw [Option.bind_eq_some_iff] at found
  rcases found with ⟨node, _, found⟩
  split at found
  · cases found
    exact direct_fail _
  · cases found
  · next field declared =>
      split at found
      · cases found
        exact direct_fail _
      · next type typed =>
          cases found
          refine direct_andThen _ ?_ fun outcome => direct_settle _ _ _ _
          exact direct_fieldValue plain sound.toClosed direct field type source _ node
            (fun id => sound.written parent node.name field type id knownParent declared typed)
            fun id => sound.field parent node.name field type id knownParent declared typed

theorem direct_fields (plain : setting.schema.WritesPlain account)
    (sound : Sound setting.schema known) (levels : Nat) (parent : TypeId) (source : Value)
    (path : Option ResponsePath) (collected : Collected) (knownParent : known parent) :
    (fields setting levels parent source path collected).Direct account := by
  induction levels generalizing parent source path collected with
  | zero => exact direct_fail _
  | succ levels ih =>
      have programs := direct_fieldPrograms plain sound
        (fun type value place selected knownType => ih type value (some place) selected knownType)
        parent source path collected knownParent
      simp only [fields, Direct, directEach_iff, List.mem_map]
      refine ⟨?_, fun settled => direct_gathered _ _⟩
      rintro program ⟨entry, member, rfl⟩
      exact programs entry member

theorem direct_inTurn {next : Except Failure (List Outcome) → Program}
    (each : ∀ settled, (next settled).Direct account) (programs : List Program)
    (settled : List Outcome) (direct : ∀ program ∈ programs, program.Direct account) :
    (inTurn next programs settled).Direct account := by
  induction programs generalizing settled with
  | nil => exact each _
  | cons program rest ih =>
      have later := fun settled => ih settled fun other member =>
        direct other (List.mem_cons_of_mem _ member)
      refine direct_andThen _ (direct program List.mem_cons_self) fun outcome => ?_
      split
      · exact later _
      · exact each _
      · exact later _

/-- An operation waits for nothing, as long as nothing deferred is handed over to it. -/
theorem direct_operationIn (plain : setting.schema.WritesPlain account)
    (sound : Sound setting.schema known) (order : RootOrder) {root : TypeId}
    (knownRoot : known root) : (operationIn setting order root).Direct account := by
  refine direct_andThen _ (direct_act _ fun result _ => ?_) fun outcome => ?_
  · cases result with
    | error failure => exact direct_fail _
    | ok collected =>
        cases order with
        | sideBySide => exact direct_fields plain sound _ root _ none collected knownRoot
        | inTurn =>
            refine direct_inTurn (fun settled => direct_gathered _ _) _ _ fun program member => ?_
            rcases List.mem_map.1 member with ⟨entry, inside, rfl⟩
            exact direct_fieldPrograms plain sound
              (fun type value place selected knownType =>
                direct_fields plain sound _ type value (some place) selected knownType)
              root _ none collected knownRoot entry inside
  · unfold settleRoot
    split
    · exact direct_perform _ (direct_succeed _)
    · simp only [Direct]

end Execution

end

end GraphQL
