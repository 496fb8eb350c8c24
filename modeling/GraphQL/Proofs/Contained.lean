import GraphQL.Proofs.Reported

/-!
How far failures get. A position takes every failure of what happens below it, so that an operation
fails as a whole only if the selection at its root cannot be collected, or if a leaf was written as an
error.
-/

namespace GraphQL

namespace Program

/-- Every outcome that a program can come to is a good one. -/
def Ends (account : Account) (good : Outcome → Prop) (program : Program) : Prop :=
  ∀ outcome encountered, program.Comes account outcome encountered → good outcome

variable {account : Account} {good middle : Outcome → Prop}

theorem Ends.mono {program : Program} (ends : program.Ends account middle)
    (weaker : ∀ outcome, middle outcome → good outcome) : program.Ends account good :=
  fun outcome encountered comes => weaker outcome (ends outcome encountered comes)

theorem ends_done (outcome : Outcome) (holds : good outcome) :
    (done outcome).Ends account good := by
  intro other encountered comes
  rw [(comes_done outcome comes).1]
  exact holds

theorem ends_andThen (program : Program) (next : Outcome → Program)
    (first : program.Ends account middle)
    (second : ∀ outcome, middle outcome → (next outcome).Ends account good) :
    (program.andThen next).Ends account good := by
  intro outcome encountered comes
  obtain ⟨between, before, after, left, right, _⟩ := comes_andThen program next comes
  exact second between (first between before left) outcome after right

theorem ends_act {α : Type} (action : Action α) (next : Except Failure α → Program)
    (each : ∀ result, action.Yields account result → (next result).Ends account good) :
    (act action next).Ends account good := by
  intro outcome encountered comes
  obtain ⟨result, yields, comes⟩ := comes_act action next comes
  exact each result yields outcome encountered comes

theorem ends_call (asked : Call) (next : Reply → Program)
    (each : ∀ reply, account.called asked reply → (next reply).Ends account good) :
    (call asked next).Ends account good := by
  intro outcome encountered comes
  simp only [Comes] at comes
  obtain ⟨reply, called, comes⟩ := comes
  exact each reply called outcome encountered comes

theorem ends_perform (effect : Effect) (next : Program) (rest : next.Ends account good) :
    (perform effect next).Ends account good := by
  intro outcome encountered comes
  simp only [Comes] at comes
  obtain ⟨others, _, comes⟩ := comes
  exact rest outcome others comes

theorem ends_closing (tickets : List Nat) (next : Program) (rest : next.Ends account good) :
    (closing tickets next).Ends account good :=
  fun outcome encountered comes => rest outcome encountered (comes_closing tickets next comes)

theorem ends_await (ticket : Nat) (next : Outcome → Program)
    (each : ∀ reply, account.came ticket reply → (next reply).Ends account good) :
    (await ticket next).Ends account good := by
  intro outcome encountered comes
  obtain ⟨reply, came, comes⟩ := comes_await ticket next comes
  exact each reply came outcome encountered comes

theorem all_of_comesEach {children : List Program}
    (each : ∀ child ∈ children, child.Ends account middle) {outcomes : List Outcome}
    {encountered : List Encounter} (comes : ComesEach account children outcomes encountered) :
    ∀ outcome ∈ outcomes, middle outcome := by
  induction children generalizing outcomes encountered with
  | nil =>
      simp only [ComesEach] at comes
      rw [comes.1]
      intro outcome inside
      cases inside
  | cons child rest ih =>
      simp only [ComesEach] at comes
      obtain ⟨first, others, part, later, rfl, _, head, tail⟩ := comes
      have others := ih (fun other inside => each other (List.mem_cons_of_mem _ inside)) tail
      exact List.forall_mem_cons.2 ⟨each child List.mem_cons_self first part head, others⟩

theorem some_of_comesSome {children : List Program}
    (each : ∀ child ∈ children, child.Ends account middle) {failure : Failure}
    (comes : ComesSome account children failure) : middle (.error failure) := by
  induction children with
  | nil =>
      simp only [ComesSome] at comes
  | cons child rest ih =>
      simp only [ComesSome] at comes
      obtain ⟨part, head⟩ | tail := comes
      · exact each child List.mem_cons_self _ part head
      · exact ih (fun other inside => each other (List.mem_cons_of_mem _ inside)) tail

theorem ends_join (children : List Program) (next : Except Failure (List Outcome) → Program)
    (each : ∀ child ∈ children, child.Ends account middle)
    (settled : ∀ outcomes, (∀ outcome ∈ outcomes, middle outcome) →
      (next (.ok outcomes)).Ends account good)
    (failed : ∀ failure, middle (.error failure) → failure.isUrgent = true →
      (next (.error failure)).Ends account good) :
    (join children next).Ends account good := by
  intro outcome encountered comes
  simp only [Comes] at comes
  obtain ⟨outcomes, part, rest, all, comes, _⟩ | ⟨failure, part, rest, urgent, one, comes, _⟩ := comes
  · exact settled outcomes (all_of_comesEach each all) outcome rest comes
  · exact failed failure (some_of_comesSome each one) urgent outcome rest comes

theorem ends_gathered (build : List Value → Value) (outcomes : List Outcome) :
    (gathered build (.ok outcomes)).Ends account fun outcome =>
      (∃ values, outcome = .ok (build values))
        ∨ ∃ failure, outcome = .error failure
          ∧ ∃ sibling ∈ outcomes, Outcome.failure? sibling = some failure := by
  have bubbled : ∀ (first : Failure) (failures : List Failure),
      (bubble first failures).Ends account fun outcome =>
        ∃ failure ∈ first :: failures, outcome = .error failure := by
    intro first failures
    induction failures with
    | nil => exact ends_done _ ⟨first, List.mem_cons_self, rfl⟩
    | cons failure rest ih =>
        have kept : ∀ other ∈ first :: rest, other ∈ first :: failure :: rest := by
          intro other inside
          simp only [List.mem_cons] at inside ⊢
          exact inside.imp_right .inr
        unfold bubble
        split
        · exact ends_done _ ⟨first, List.mem_cons_self, rfl⟩
        · next same =>
            cases same
            refine ends_perform _ _ (ih.mono fun outcome ⟨other, inside, same⟩ => ?_)
            exact ⟨other, kept other inside, same⟩
        · next same =>
            cases same
            exact ends_done _ ⟨failure, List.mem_cons_of_mem _ List.mem_cons_self, rfl⟩
  unfold gathered
  simp only
  split
  · exact ends_done _ (.inl ⟨_, rfl⟩)
  · next first rest found =>
      refine (bubbled first (first :: rest)).mono fun outcome ⟨failure, inside, same⟩ =>
        .inr ⟨failure, same, ?_⟩
      have member : failure ∈ outcomes.filterMap Outcome.failure? := by
        rw [found]
        simpa using inside
      exact List.mem_filterMap.1 member

end Program

/-- What a leaf was written as: the form itself, or what a deferred form has come to. -/
inductive Account.Written (account : Account) (schema : Schema) : Value → Prop where
  | form {leaf : TypeId} {value form : Value} :
    (schema.serialize leaf value).Yields account (.ok form) → Written account schema form
  | result {leaf : TypeId} {value form : Value} {ticket : Nat} :
    (schema.serialize leaf value).Yields account (.ok (.deferred ticket)) →
    account.came ticket (.ok form) → Written account schema form

/-- A failure that is caught as an exception, other than the one that stops an execution which must
not wait. -/
structure Failure.Caught (failure : Failure) : Prop where
  caught : failure.isFatal = false
  own : failure ≠ .asynchronous

theorem Failure.caught_of_halts {failure : Failure} (handled : failure.halts = false) :
    failure.Caught := by
  rw [halts, Bool.or_eq_false_iff, decide_eq_false_iff_not] at handled
  refine ⟨handled.1, fun same => handled.2 ?_⟩
  rw [same]
  rfl

/-- An application that raises nothing but exceptions, and writes nothing else in place of a value. -/
structure Account.Handled (account : Account) (schema : Schema) : Prop where
  failures : ∀ asked failure, account.called asked (.error failure) → failure.Caught
  faults : ∀ handle items failure, account.drained handle items (some failure) → failure.Caught
  refusals : ∀ ticket failure, account.came ticket (.error failure) → failure.Caught
  written : ∀ form failure, account.Written schema form → Failure.ofValue? form = some failure →
    failure.isFatal = false

namespace Setting

/-- A failure that is handled: an exception, which stops the execution only if nothing may wait. -/
structure Handles (setting : Setting) (failure : Failure) : Prop where
  caught : failure.isFatal = false
  stops : failure = .asynchronous → setting.synchronous = true

/-- What a position may be given: a value, which is an error only if a leaf was written so, or a
failure that it takes. -/
def Takes (setting : Setting) (account : Account) : Outcome → Prop
  | .ok value => ∀ failure, Failure.ofValue? value = some failure →
    account.Written setting.schema value
  | .error failure => setting.Handles failure

/-- What a position ends with. The only failures that are left are response errors and those that
stop the execution. -/
def Leaves (setting : Setting) (account : Account) : Outcome → Prop
  | .ok value => ∀ failure, Failure.ofValue? value = some failure →
    account.Written setting.schema value
  | .error failure => setting.Handles failure
    ∧ ((∃ error, failure = .response error) ∨ failure.kind = .asynchronous)

theorem lenient_handles (setting : Setting) : Lenient (fun _ => True) setting.Handles where
  literals _ _ _ := trivial
  response _ _ _ := ⟨rfl, fun same => by cases same⟩
  schema fault := ⟨by cases fault <;> rfl, fun same => by cases same⟩
  value fault := ⟨by cases fault <;> rfl, fun same => by cases same⟩
  leaf fault := by
    obtain ⟨direction, problem⟩ := fault
    exact ⟨by cases direction <;> rfl, fun same => by cases same⟩
  assertion _ := ⟨rfl, fun same => by cases same⟩

theorem handles_of_caught (setting : Setting) {failure : Failure} (caught : failure.Caught) :
    setting.Handles failure :=
  ⟨caught.caught, fun same => absurd same caught.own⟩

/-- An error that stands in the place of a value is never the one that stops an execution. -/
theorem handles_of_value (setting : Setting) {value : Value} {failure : Failure}
    (found : Failure.ofValue? value = some failure) (caught : failure.isFatal = false) :
    setting.Handles failure := by
  refine ⟨caught, fun same => ?_⟩
  subst same
  cases value with
  | error thrown =>
      rw [Failure.ofValue?, Failure.ofThrown] at found
      split at found <;> cases found
  | _ => cases found

end Setting

open Program

section

variable {setting : Setting} {account : Account}

theorem Setting.Takes.handles (handled : account.Handled setting.schema) {outcome : Outcome}
    (takes : setting.Takes account outcome) {failure : Failure}
    (found : Outcome.failure? outcome = some failure) : setting.Handles failure := by
  cases outcome with
  | ok value =>
      exact setting.handles_of_value found (handled.written value failure (takes failure found) found)
  | error other =>
      cases found
      exact takes

theorem Setting.Leaves.takes {outcome : Outcome} (leaves : setting.Leaves account outcome) :
    setting.Takes account outcome := by
  cases outcome with
  | ok value => exact leaves
  | error failure => exact leaves.1

theorem Action.handles {α : Type} (handled : account.Handled setting.schema) (action : Action α)
    (within : action.Within (fun _ => True) setting.Handles) (failure : Failure)
    (yields : action.Yields account (.error failure)) : setting.Handles failure :=
  action.good_of_within within
    (fun asked failure called => setting.handles_of_caught (handled.failures asked failure called))
    failure yields

namespace Program

theorem takes_value {value : Value} (none_ : Failure.ofValue? value = none) :
    setting.Takes account (.ok value) := by
  intro failure found
  rw [none_] at found
  cases found

theorem ends_refused (setting : Setting) {failure : Failure} (handles : setting.Handles failure) :
    (fail failure).Ends account (setting.Takes account) :=
  ends_done _ handles

theorem ends_asked {good : Outcome → Prop} (handled : account.Handled setting.schema)
    (asked : Call) (next : Reply → Program) (each : ∀ value, (next (.ok value)).Ends account good)
    (failed : ∀ failure, setting.Handles failure → (next (.error failure)).Ends account good) :
    (call asked next).Ends account good := by
  refine ends_call _ _ fun reply called => ?_
  cases reply with
  | ok value => exact each value
  | error failure =>
      exact failed failure (setting.handles_of_caught (handled.failures _ failure called))

theorem ends_receive {good : Outcome → Prop} (handled : account.Handled setting.schema)
    (value : Value) (next : Outcome → Program)
    (each : ∀ value, (next (.ok value)).Ends account good)
    (failed : ∀ failure, setting.Handles failure → (next (.error failure)).Ends account good) :
    (receive setting value next).Ends account good := by
  unfold receive
  split
  · split
    · next synchronous => exact ends_closing _ _ (failed _ ⟨rfl, fun _ => synchronous⟩)
    · refine ends_await _ _ fun reply came => ?_
      cases reply with
      | ok value => exact each value
      | error failure =>
          exact failed failure (setting.handles_of_caught (handled.refusals _ failure came))
  · exact each value

theorem ends_settle (type : TypeRef) (nodes : List FieldNode) (path : ResponsePath)
    (outcome : Outcome) (takes : setting.Takes account outcome) :
    (settle type nodes path outcome).Ends account (setting.Leaves account) := by
  cases outcome with
  | ok value => exact ends_done _ takes
  | error failure =>
      simp only [settle]
      split
      · next halts =>
          rw [takes.caught, Bool.false_or, decide_eq_true_eq] at halts
          exact ends_done _ ⟨takes, .inr halts⟩
      · split
        · exact ends_done _ ⟨setting.handles_of_caught ⟨rfl, fun same => by cases same⟩, .inl ⟨_, rfl⟩⟩
        · exact ends_perform _ _ (ends_done _ (takes_value rfl))

/-- Siblings that are put together make a value that is no error, or fail in a way that the position
around them takes. -/
theorem ends_siblings (handled : account.Handled setting.schema) (children : List Program)
    (build : List Value → Value) (built : ∀ values, Failure.ofValue? (build values) = none)
    (each : ∀ child ∈ children, child.Ends account (setting.Takes account)) :
    (join children (gathered build)).Ends account (setting.Takes account) := by
  refine ends_join _ _ each (fun outcomes all => ?_) fun failure takes _ =>
    ends_refused setting takes
  refine (ends_gathered build outcomes).mono fun outcome ended => ?_
  obtain ⟨values, rfl⟩ | ⟨failure, rfl, sibling, inside, found⟩ := ended
  · exact takes_value (built values)
  · exact (all sibling inside).handles handled found

end Program

theorem Slot.ends_call {good : Outcome → Prop} (handled : account.Handled setting.schema)
    (slot : Slot) (asked : Nat → Call) (next : Reply → Program)
    (each : ∀ value, (next (.ok value)).Ends account good)
    (failed : ∀ failure, setting.Handles failure → (next (.error failure)).Ends account good) :
    (slot.call asked next).Ends account good := by
  cases slot with
  | function id => exact ends_asked handled _ _ each failed
  | other value => exact failed _ (setting.lenient_handles.value _)
  | absent => exact failed _ (setting.lenient_handles.value _)

namespace RuntimeType

theorem ends_decideDeferred {good : Outcome → Prop} (handled : account.Handled setting.schema)
    (deferred : List (TypeId × Nat)) (next : Except Failure (Option TypeId) → Program)
    (each : ∀ found, (next (.ok found)).Ends account good)
    (failed : ∀ failure, setting.Handles failure → (next (.error failure)).Ends account good) :
    (decideDeferred setting deferred next).Ends account good := by
  unfold decideDeferred
  simp only
  split
  · exact each none
  · split
    · next synchronous => exact ends_closing _ _ (failed _ ⟨rfl, fun _ => synchronous⟩)
    · intro outcome encountered comes
      simp only [Comes] at comes
      obtain ⟨result, awaited, comes⟩ := comes
      cases result with
      | ok values => exact each _ outcome encountered comes
      | error failure =>
          obtain ⟨ticket, _, came⟩ := awaited
          have handles := setting.handles_of_caught (handled.refusals ticket failure came)
          exact failed failure handles outcome encountered comes

theorem ends_askTypes {good : Outcome → Prop} (handled : account.Handled setting.schema)
    (info : Info) (value : Value) (next : Except Failure (Option TypeId) → Program)
    (each : ∀ found, (next (.ok found)).Ends account good)
    (failed : ∀ failure, setting.Handles failure → (next (.error failure)).Ends account good)
    (tests : List (TypeId × Slot)) (deferred : List (TypeId × Nat)) :
    (askTypes setting info value next tests deferred).Ends account good := by
  induction tests generalizing deferred with
  | nil => exact ends_decideDeferred handled deferred next each failed
  | cons test rest ih =>
      obtain ⟨type, slot⟩ := test
      unfold askTypes
      refine Slot.ends_call handled slot _ _ (fun answer => ?_) failed
      split
      · next same => cases same
      · exact ih _
      · split
        · exact ends_closing _ _ (each _)
        · exact ih _

theorem ends_find {good : Outcome → Prop} (handled : account.Handled setting.schema) (info : Info)
    (abstract : TypeId) (value : Value) (next : Outcome → Program)
    (each : ∀ value, (next (.ok value)).Ends account good)
    (failed : ∀ failure, setting.Handles failure → (next (.error failure)).Ends account good) :
    (find setting info abstract value next).Ends account good := by
  have given := fun found => ends_receive handled found next each failed
  unfold find
  simp only
  split
  · exact Slot.ends_call handled _ _ _ given failed
  · split
    · exact ends_asked handled _ _ given failed
    · unfold byDefault
      split
      · exact each _
      · split
        · exact failed _ (setting.lenient_handles.schema _)
        · refine ends_askTypes handled info value _ (fun found => ?_) failed _ _
          cases found with
          | some type => exact each _
          | none => exact each _

end RuntimeType

/-- The selections on an object end in a way that the position of the object takes. -/
def BelowEnds (setting : Setting) (account : Account) (below : Completion.Subfields) : Prop :=
  ∀ type value path fields, (below type value path fields).Ends account (setting.Takes account)

namespace Completion

theorem handles_problem (info : Info) (build : String → String → CompletionProblem) :
    setting.Handles (problem info setting build) :=
  setting.lenient_handles.response _ rfl rfl

theorem handles_raised {value : Value} {failure : Failure} (raised : raised? value = some failure) :
    setting.Handles failure := by
  obtain ⟨found, caught⟩ := Option.filter_eq_some_iff.1 raised
  exact setting.handles_of_value found (by simpa using caught)

theorem ends_leaf (handled : account.Handled setting.schema) (type : TypeId) (value : Value) :
    (leaf setting type value).Ends account (setting.Takes account) := by
  unfold leaf
  refine ends_act _ _ fun result yields => ?_
  split
  · next failure =>
      refine ends_refused setting (Action.handles handled _ ?_ failure yields)
      exact setting.lenient_handles.within_serialize (fun _ _ => trivial) _ _ _
  · next ticket =>
      refine ends_await _ _ fun reply came => ends_done _ ?_
      cases reply with
      | ok form => exact fun _ _ => .result yields came
      | error failure => exact setting.handles_of_caught (handled.refusals ticket failure came)
  · split
    · exact ends_refused setting (setting.lenient_handles.response _ rfl rfl)
    · exact ends_done _ fun _ _ => .form yields

theorem ends_executeSubfields (handled : account.Handled setting.schema) {below : Subfields}
    (ends : BelowEnds setting account below) (info : Info) (type : TypeId) (path : ResponsePath)
    (value : Value) :
    (executeSubfields setting below info type path value).Ends account (setting.Takes account) := by
  intro outcome encountered comes
  simp only [executeSubfields, subfields, Comes] at comes
  obtain ⟨found, _, comes⟩ := comes
  cases found with
  | some fields => exact ends type value path fields outcome encountered comes
  | none =>
      refine ends_act _ _ (fun result yields => ?_) outcome encountered comes
      cases result with
      | ok fields => exact ends_perform _ _ (ends type value path fields)
      | error failure =>
          refine ends_refused setting (Action.handles handled _ ?_ failure yields)
          exact setting.lenient_handles.within_collectNodes _ _ _

theorem ends_object (handled : account.Handled setting.schema) {below : Subfields}
    (ends : BelowEnds setting account below) (info : Info) (type : TypeId) (path : ResponsePath)
    (value : Value) :
    (object setting below info type path value).Ends account (setting.Takes account) := by
  have execute := ends_executeSubfields handled ends info type path value
  have refuse : ∀ failure, setting.Handles failure →
      (fail failure).Ends account (setting.Takes account) :=
    fun failure handles => ends_refused setting handles
  unfold object
  simp only
  split
  · exact execute
  · refine Slot.ends_call handled _ _ _ (fun result => ?_) refuse
    refine ends_receive handled _ _ (fun holds => ?_) refuse
    simp only [onSuccess]
    split
    · exact execute
    · exact ends_refused setting (setting.lenient_handles.response _ rfl rfl)

theorem ends_abstract (handled : account.Handled setting.schema) {below : Subfields}
    (ends : BelowEnds setting account below) (info : Info) (type : TypeId) (path : ResponsePath)
    (value : Value) :
    (abstract setting below info type path value).Ends account (setting.Takes account) := by
  unfold abstract
  refine RuntimeType.ends_find handled info type value _ (fun found => ?_) fun failure handles =>
    ends_refused setting handles
  simp only [onSuccess]
  cases checked : RuntimeType.check setting info type value found with
  | ok id => exact ends_object handled ends info id path value
  | error failure =>
      have ordinary := RuntimeType.ordinary_check info type value found failure checked
      have caught := Failure.caught_of_halts ordinary.handled
      exact ends_refused setting (setting.handles_of_caught caught)

theorem ends_named (handled : account.Handled setting.schema) {below : Subfields}
    (ends : BelowEnds setting account below) (info : Info) (type : TypeId) (path : ResponsePath)
    (value : Value) :
    (named setting below info type path value).Ends account (setting.Takes account) := by
  unfold named
  split
  · exact ends_leaf handled type value
  · exact ends_leaf handled type value
  · exact ends_abstract handled ends info type path value
  · exact ends_abstract handled ends info type path value
  · exact ends_object handled ends info type path value
  · exact ends_refused setting (setting.lenient_handles.assertion _)

theorem ends_items (handled : account.Handled setting.schema) (info : Info) (type : TypeRef)
    (path : ResponsePath) (complete : ResponsePath → Value → Program)
    (each : ∀ place value, (complete place value).Ends account (setting.Takes account))
    (values : List Value) :
    (items setting info type path complete values).Ends account (setting.Takes account) := by
  unfold items
  simp only
  split
  · exact ends_refused setting (setting.lenient_handles.schema _)
  · refine ends_perform _ _ ?_
    refine ends_siblings handled _ .list (fun values => rfl) fun child inside => ?_
    obtain ⟨⟨item, index⟩, _, rfl⟩ := List.mem_map.1 inside
    refine ends_andThen _ _ ?_ fun outcome takes =>
      (ends_settle type info.nodes _ outcome takes).mono fun _ leaves => leaves.takes
    exact ends_receive handled item _ (each _) fun failure handles => ends_refused setting handles

theorem ends_list (handled : account.Handled setting.schema) (info : Info) (type : TypeRef)
    (path : ResponsePath) (complete : ResponsePath → Value → Program)
    (each : ∀ place value, (complete place value).Ends account (setting.Takes account))
    (value : Value) :
    (list setting info type path complete value).Ends account (setting.Takes account) := by
  unfold list
  split
  · intro outcome encountered comes
    simp only [Comes] at comes
    obtain ⟨values, fault, drained, comes⟩ := comes
    cases fault with
    | none => exact ends_items handled info type path complete each values outcome encountered comes
    | some failure =>
        have handles := setting.handles_of_caught (handled.faults _ values failure drained)
        simp only [handles.caught, Bool.false_eq_true, if_false] at comes
        exact ends_closing _ _ (ends_refused setting handles) outcome encountered comes
  · split
    · exact ends_items handled info type path complete each _
    · exact ends_refused setting (handles_problem info _)

theorem ends_complete (handled : account.Handled setting.schema) {below : Subfields}
    (ends : BelowEnds setting account below) (info : Info) (type : TypeRef) (path : ResponsePath)
    (value : Value) :
    (complete setting below info type path value).Ends account (setting.Takes account) := by
  induction type generalizing path value with
  | named id =>
      unfold complete
      split
      · next raised => exact ends_refused setting (handles_raised raised)
      · simp only
        split
        · exact ends_done _ (takes_value rfl)
        · exact ends_named handled ends info id path value
  | list of ih =>
      unfold complete
      split
      · next raised => exact ends_refused setting (handles_raised raised)
      · simp only
        split
        · exact ends_done _ (takes_value rfl)
        · exact ends_list handled info of path _ ih value
  | nonNull of ih =>
      unfold complete
      split
      · next raised => exact ends_refused setting (handles_raised raised)
      · refine ends_andThen _ _ (ih path value) fun outcome takes => ?_
        cases outcome with
        | error failure => exact ends_refused setting takes
        | ok completed =>
            simp only [requireValue, onSuccess]
            split
            · exact ends_refused setting (handles_problem info _)
            · exact ends_done _ takes
  | broken fault =>
      unfold complete
      split
      · next raised => exact ends_refused setting (handles_raised raised)
      · exact ends_refused setting (setting.lenient_handles.schema _)

end Completion

namespace Execution

theorem ends_resolve (handled : account.Handled setting.schema) (field : Field)
    (source arguments : Value) (info : Info) {good : Outcome → Prop} (next : Reply → Program)
    (each : ∀ value, (next (.ok value)).Ends account good)
    (failed : ∀ failure, setting.Handles failure → (next (.error failure)).Ends account good) :
    (resolve setting field source arguments info next).Ends account good := by
  unfold resolve
  split
  · exact each _
  · split
    · exact Slot.ends_call handled _ _ _ each failed
    · split
      · exact ends_asked handled _ _ each failed
      · unfold resolveByName
        split
        · exact ends_asked handled _ _ each failed
        · next receiver name _ =>
            cases receiver.callMethod name arguments info.environment.context with
            | ok value => exact each value
            | error fault => exact failed _ (setting.lenient_handles.value fault)
        · exact each _

theorem ends_fieldValue (handled : account.Handled setting.schema) {below : Completion.Subfields}
    (ends : BelowEnds setting account below) (field : Field) (type : TypeRef) (source : Value)
    (info : Info) (node : FieldNode) :
    (fieldValue setting below field type source info node).Ends account (setting.Takes account) := by
  unfold fieldValue
  refine ends_act _ _ fun result yields => ?_
  cases result with
  | error failure =>
      refine ends_refused setting (Action.handles handled _ ?_ failure yields)
      exact setting.lenient_handles.within_arguments _ _ _ _ _
  | ok bound =>
      have refuse : ∀ failure, setting.Handles failure →
          (fail failure).Ends account (setting.Takes account) :=
        fun failure handles => ends_refused setting handles
      refine ends_perform _ _ (ends_resolve handled field source _ info _ (fun value => ?_) refuse)
      refine ends_perform _ _ (ends_receive handled value _ (fun received => ?_) refuse)
      exact Completion.ends_complete handled ends info type info.path received

/-- A field that is executed is declared. Its definition is broken, or it is given a value of its
type and ends as a position. -/
theorem field?_eq_some {below : Completion.Subfields} {parent : TypeId} {source : Value}
    {path : ResponsePath} {nodes : List FieldNode} {program : Program}
    (found : field? setting below parent source path nodes = some program) :
    ∃ node, nodes.head? = some node
      ∧ ((∃ fault, program = .fail (.schema fault)
          ∧ (setting.schema.field? parent node.name = .error fault
            ∨ ∃ field, setting.schema.field? parent node.name = .ok (some field)
              ∧ field.type = .error fault))
        ∨ ∃ field type, setting.schema.field? parent node.name = .ok (some field)
          ∧ field.type = .ok type
          ∧ program = (fieldValue setting below field type source
              ⟨setting.environment, node.name, nodes, type, parent, path⟩ node).andThen
                (settle type nodes path)) := by
  unfold field? at found
  obtain ⟨node, first, found⟩ := Option.bind_eq_some_iff.1 found
  refine ⟨node, first, ?_⟩
  split at found
  · next fault broken =>
      cases found
      exact .inl ⟨fault, rfl, .inl broken⟩
  · cases found
  · next field declared =>
      split at found
      · next fault broken =>
          cases found
          exact .inl ⟨fault, rfl, .inr ⟨field, declared, broken⟩⟩
      · next type typed =>
          cases found
          exact .inr ⟨field, type, declared, typed, rfl⟩

theorem ends_field (handled : account.Handled setting.schema) {below : Completion.Subfields}
    (ends : BelowEnds setting account below) (field : Field) (type : TypeRef) (source : Value)
    (info : Info) (node : FieldNode) (nodes : List FieldNode) (path : ResponsePath) :
    ((fieldValue setting below field type source info node).andThen
      (settle type nodes path)).Ends account (setting.Leaves account) :=
  ends_andThen _ _ (ends_fieldValue handled ends field type source info node)
    (ends_settle type nodes path)

theorem takes_fieldPrograms (handled : account.Handled setting.schema)
    {below : Completion.Subfields} (ends : BelowEnds setting account below) (parent : TypeId)
    (source : Value) (path : Option ResponsePath) (fields : Collected) :
    ∀ entry ∈ fieldPrograms setting below parent source path fields,
      entry.2.Ends account (setting.Takes account) := by
  intro entry member
  obtain ⟨⟨key, nodes⟩, _, made⟩ := List.mem_filterMap.1 member
  obtain ⟨program, found, rfl⟩ := Option.map_eq_some_iff.1 made
  obtain ⟨node, _, ⟨fault, rfl, _⟩ | ⟨field, type, _, _, rfl⟩⟩ := field?_eq_some found
  · exact ends_refused setting (setting.lenient_handles.schema fault)
  · exact (ends_field handled ends field type source _ node nodes _).mono fun _ leaves => leaves.takes

theorem ends_fields (handled : account.Handled setting.schema) (levels : Nat) (parent : TypeId)
    (source : Value) (path : Option ResponsePath) (collected : Collected) :
    (fields setting levels parent source path collected).Ends account (setting.Takes account) := by
  induction levels generalizing parent source path collected with
  | zero => exact ends_refused setting ⟨rfl, fun same => by cases same⟩
  | succ levels ih =>
      refine ends_siblings handled _ (objectOf _) (fun values => rfl) fun child inside => ?_
      obtain ⟨entry, member, rfl⟩ := List.mem_map.1 inside
      exact takes_fieldPrograms handled
        (fun type value place selected => ih type value (some place) selected) parent source path
        collected entry member

end Execution

namespace Execution

variable {root : TypeId}

end Execution

end

end GraphQL
