import GraphQL.Proofs.Disposal
import GraphQL.Proofs.Turns

/-!
The type that the tests of the possible types find for a value. A type whose test says yes at once
is chosen before any type whose test takes time. Without one, all that was deferred is waited for,
however long each result takes, and the first type with a yes among the results is chosen.
-/

namespace GraphQL

namespace World

variable {σ : Type}

/-- A deferred result that nothing has waited for yet, and that does not fail when it is. -/
structure Promises (application : Application σ) (world : World σ) (ticket : Nat) : Prop where
  unused : world.status? ticket = none
  succeeds : ∀ state, ∃ result, (application.finish ticket state).1 = .ok result

theorem launch_of_unused (application : Application σ) {ticket : Nat} {world : World σ}
    (unused : world.status? ticket = none) :
    (∃ due, ⟨due, world.nextWaiter, .finish ticket⟩
        ∈ (world.launch application ticket).2.timers)
      ∧ ∀ other, other ≠ ticket →
        (world.launch application ticket).2.status? other = world.status? other := by
  unfold launch
  rw [unused]
  refine ⟨⟨_, List.mem_append_right _ List.mem_cons_self⟩, fun other differs => ?_⟩
  have status := status?_setStatus world ticket .running other
  rw [if_neg differs] at status
  exact status

theorem fire_of_finish (application : Application σ) {timer : Timer} {world : World σ}
    {ticket : Nat} (wake : timer.wake = .finish ticket) :
    (world.fire application timer).1 = (application.finish ticket world.state).1
      ∧ (world.fire application timer).2.Saw
        (.settled ticket (world.fire application timer).1) := by
  unfold fire
  rw [wake]
  exact ⟨rfl, _, List.mem_cons_of_mem _ List.mem_cons_self⟩

end World

namespace Process

variable {σ : Type}

/-- A slot holds what a deferred result has come to, or there is a timer that will bring it. -/
def Brings (world : World σ) (ticket : Nat) : Pending → Prop
  | .arrived value => world.Saw (.settled ticket (.ok value))
  | .waiter waiter => ∃ due, ⟨due, waiter, .finish ticket⟩ ∈ world.timers
  | .ticket _ => False

theorem brings_launchSlots (application : Application σ) {tickets : List Nat} {world : World σ}
    (distinct : tickets.Nodup) (unused : ∀ ticket ∈ tickets, world.status? ticket = none) :
    List.Forall₂ (Brings (launchSlots application (tickets.map .ticket) world).2) tickets
      (launchSlots application (tickets.map .ticket) world).1 := by
  induction tickets generalizing world with
  | nil => exact .nil
  | cons ticket rest ih =>
      obtain ⟨apart, distinct⟩ := List.nodup_cons.1 distinct
      obtain ⟨⟨due, set⟩, others⟩ :=
        World.launch_of_unused application (unused ticket List.mem_cons_self)
      simp only [List.map_cons, launchSlots, World.launch_fst]
      have unlaunched : (rest.map Pending.ticket).filterMap Pending.waiter? = [] := by
        rw [List.filterMap_map]
        exact List.filterMap_eq_nil_iff.2 fun _ _ => rfl
      have kept := (timed_launchSlots application _
        (world.launch application ticket).2 unlaunched).2.1.timers
      refine .cons ⟨due, kept set⟩ (ih distinct fun other member => ?_)
      rw [others other fun same => apart (same ▸ member)]
      exact unused other (List.mem_cons_of_mem _ member)

theorem settles_of_isWaiter (application : Application σ) {timer : Timer} {world : World σ}
    (timely : world.Timely) (pending : timer ∈ world.timers) {ticket : Nat} {slot : Pending}
    (brings : Brings world ticket slot) (waits : isWaiter timer.waiter slot = true) :
    (world.fire application timer).1 = (application.finish ticket world.state).1
      ∧ (world.fire application timer).2.Saw
        (.settled ticket (world.fire application timer).1) := by
  cases slot with
  | ticket other => cases waits
  | arrived value => cases waits
  | waiter waiter =>
      obtain ⟨due, set⟩ := brings
      have same : waiter = timer.waiter := of_decide_eq_true waits
      have found := timely.eq_of_waiter pending set same
      exact World.fire_of_finish application (by rw [← found])

theorem brings_of_not_isWaiter (application : Application σ) {timer : Timer} {world : World σ}
    {ticket : Nat} {slot : Pending} (brings : Brings world ticket slot)
    (differs : isWaiter timer.waiter slot = false) :
    Brings (world.fire application timer).2 ticket slot := by
  cases slot with
  | ticket other => exact brings
  | arrived value => exact (World.leads_fire application timer world).saw brings
  | waiter waiter =>
      obtain ⟨due, set⟩ := brings
      refine ⟨due, ?_⟩
      rw [(waits_fire application timer world).2]
      refine List.mem_filter.2 ⟨set, ?_⟩
      simpa [isWaiter] using differs

theorem brings_fill (application : Application σ) {timer : Timer} {world : World σ}
    (timely : world.Timely) (pending : timer ∈ world.timers) {value : Value}
    (delivered : (world.fire application timer).1 = .ok value) {tickets : List Nat}
    {slots : List Pending} (brings : List.Forall₂ (Brings world) tickets slots) :
    List.Forall₂ (Brings (world.fire application timer).2) tickets
      (fill timer.waiter value slots) := by
  induction brings with
  | nil => exact .nil
  | cons head _ ih =>
      rw [fill_cons]
      refine .cons ?_ ih
      split
      · next waits =>
          have settled := (settles_of_isWaiter application timely pending head waits).2
          rw [delivered] at settled
          exact settled
      · next differs =>
          exact brings_of_not_isWaiter application head (Bool.eq_false_iff.2 differs)

theorem settled_of_arrivals? {world : World σ} {tickets : List Nat} {slots : List Pending}
    (brings : List.Forall₂ (Brings world) tickets slots) {values : List Value}
    (arrived : arrivals? slots = some values) :
    List.Forall₂ (fun ticket value => world.Saw (.settled ticket (.ok value))) tickets values := by
  induction brings generalizing values with
  | nil =>
      cases arrived
      exact .nil
  | @cons ticket slot _ _ head _ ih =>
      cases slot with
      | ticket other => cases arrived
      | waiter waiter => cases arrived
      | arrived value =>
          rw [arrivals?_cons, Option.map_eq_some_iff] at arrived
          obtain ⟨others, found, rfl⟩ := arrived
          exact .cons head (ih found)

theorem earliest_of_brings {world : World σ} {tickets : List Nat} {slots : List Pending}
    (brings : List.Forall₂ (Brings world) tickets slots) (missing : arrivals? slots = none) :
    ∃ timer, World.earliest world.timers = some timer := by
  induction brings with
  | nil => cases missing
  | @cons _ slot _ _ head _ ih =>
      cases slot with
      | ticket other => exact head.elim
      | waiter waiter =>
          obtain ⟨due, set⟩ := head
          exact Option.ne_none_iff_exists'.1 (World.earliest_ne_none set)
      | arrived value =>
          rw [arrivals?_cons, Option.map_eq_none_iff] at missing
          exact ih missing

theorem brings_of_ignored (application : Application σ) {timer : Timer} {world : World σ}
    {tickets : List Nat} {slots : List Pending}
    (brings : List.Forall₂ (Brings world) tickets slots)
    (ignored : slots.any (isWaiter timer.waiter) = false) :
    List.Forall₂ (Brings (world.fire application timer).2) tickets slots := by
  induction brings with
  | nil => exact .nil
  | cons head _ ih =>
      rw [List.any_cons, Bool.or_eq_false_iff] at ignored
      exact .cons (brings_of_not_isWaiter application head ignored.1) (ih ignored.2)

theorem reply_of_any (application : Application σ) {timer : Timer} {world : World σ}
    (timely : world.Timely) (pending : timer ∈ world.timers) {tickets : List Nat}
    {slots : List Pending} (brings : List.Forall₂ (Brings world) tickets slots)
    (waits : slots.any (isWaiter timer.waiter) = true) :
    ∃ ticket ∈ tickets,
      (world.fire application timer).1 = (application.finish ticket world.state).1 := by
  induction brings with
  | nil => cases waits
  | @cons ticket slot _ _ head _ ih =>
      rw [List.any_cons, Bool.or_eq_true] at waits
      obtain here | later := waits
      · exact ⟨ticket, List.mem_cons_self,
          (settles_of_isWaiter application timely pending head here).1⟩
      · obtain ⟨found, member, same⟩ := ih later
        exact ⟨found, List.mem_cons_of_mem _ member, same⟩

/-- A timer that goes off fills the slots that wait for it, if there are any. The wait is over once
every slot is filled. -/
theorem wake_waiting (application : Application σ) {tickets : List Nat} {slots : List Pending}
    {world : World σ} {timer : Timer} (timely : world.Timely) (pending : timer ∈ world.timers)
    (brings : List.Forall₂ (Brings world) tickets slots)
    (succeeds : ∀ ticket ∈ tickets, ∀ state, ∃ result,
      (application.finish ticket state).1 = .ok result)
    (missing : arrivals? slots = none) :
    ∃ filled, List.Forall₂ (Brings (world.fire application timer).2) tickets filled
      ∧ ∀ next, wake application timer (waiting slots next) world
        = match arrivals? filled with
          | some values => begin application (next (.ok values)) (world.fire application timer).2
          | none => (waiting filled next, (world.fire application timer).2) := by
  simp only [wake, resume]
  cases waits : slots.any (isWaiter timer.waiter) with
  | false =>
      refine ⟨slots, brings_of_ignored application brings waits, fun next => ?_⟩
      rw [missing]
      rfl
  | true =>
      obtain ⟨ticket, member, same⟩ := reply_of_any application timely pending brings waits
      obtain ⟨value, result⟩ := succeeds ticket member world.state
      have delivered := same.trans result
      refine ⟨fill timer.waiter value slots,
        brings_fill application timely pending delivered brings, fun next => ?_⟩
      simp only [delivered, if_true]
      cases arrivals? (fill timer.waiter value slots) <;> rfl

/-- A wait for deferred results of which none fails goes on with all of them, in whatever order they
come. The induction is on the timers, of which each one that goes off leaves fewer. -/
theorem run_waiting (application : Application σ) {tickets : List Nat} {slots : List Pending}
    {world : World σ} (timely : world.Timely)
    (brings : List.Forall₂ (Brings world) tickets slots)
    (succeeds : ∀ ticket ∈ tickets, ∀ state, ∃ result,
      (application.finish ticket state).1 = .ok result)
    (missing : arrivals? slots = none) :
    ∃ values later,
      List.Forall₂ (fun ticket value => later.Saw (.settled ticket (.ok value))) tickets values
      ∧ ∀ next, run application (waiting slots next) world
        = complete application (next (.ok values)) later := by
  generalize count : world.timers.length = left
  -- By induction on how many timers are left: each one that goes off leaves fewer.
  induction left using Nat.strongRecOn generalizing world slots with
  | ind left ih =>
      obtain ⟨timer, found⟩ := earliest_of_brings brings missing
      have pending := World.earliest_mem found
      have fewer : (world.fire application timer).2.timers.length < world.timers.length :=
        World.fire_timers_lt pending
      have timely' := World.timely_fire application timely pending
      obtain ⟨filled, brings', woken⟩ :=
        wake_waiting application timely pending brings succeeds missing
      have stepped (next : Except Failure (List Value) → Program) :
          step? application (waiting slots next) world
            = some (wake application timer (waiting slots next) world) := by
        rw [step?_of_unfinished (fun _ same => by cases same), found, Option.map_some]
      cases arrived : arrivals? filled with
      | some values =>
          refine ⟨values, _, settled_of_arrivals? brings' arrived, fun next => ?_⟩
          rw [run_eq, stepped, woken, arrived, complete]
      | none =>
          obtain ⟨values, later, settled, ran⟩ :=
            ih _ (count ▸ fewer) timely' brings' arrived rfl
          refine ⟨values, later, settled, fun next => ?_⟩
          rw [run_eq, stepped, woken, arrived]
          exact ran next

theorem complete_wait (application : Application σ) {tickets : List Nat} {world : World σ}
    (timely : world.Timely) (distinct : tickets.Nodup)
    (promises : ∀ ticket ∈ tickets, world.Promises application ticket) :
    ∃ values later,
      List.Forall₂ (fun ticket value => later.Saw (.settled ticket (.ok value))) tickets values
      ∧ ∀ next, complete application (.wait tickets next) world
        = complete application (next (.ok values)) later := by
  cases tickets with
  | nil =>
      refine ⟨[], world, .nil, fun next => ?_⟩
      rw [complete, begin, start, complete, begin]
  | cons ticket rest =>
      have brings := brings_launchSlots application distinct fun other member =>
        (promises other member).unused
      have timely' := (alike_launchSlots (World.invariant_timely application).simulation
        ((ticket :: rest).map .ticket) ⟨rfl, timely⟩).2.2
      obtain ⟨values, later, settled, ran⟩ := run_waiting application timely' brings
        (fun other member => (promises other member).succeeds) rfl
      refine ⟨values, later, settled, fun next => ?_⟩
      rw [← ran, complete, begin, start]
      · rfl
      · simp

end Process

theorem nodup_eraseDups (tickets : List Nat) : tickets.eraseDups.Nodup := by
  match tickets with
  | [] => exact .nil
  | ticket :: rest =>
      rw [List.eraseDups_cons]
      refine List.nodup_cons.2 ⟨fun member => ?_, nodup_eraseDups _⟩
      have kept := (List.mem_filter.1 (List.mem_eraseDups.1 member)).2
      simp at kept
termination_by tickets.length
decreasing_by
  exact Nat.lt_succ_of_le (List.length_filter_le _ _)

theorem lookup_zip {holds : Nat → Value → Prop} {tickets : List Nat} {values : List Value}
    (each : List.Forall₂ holds tickets values) {ticket : Nat} (member : ticket ∈ tickets) :
    ∃ value, (tickets.zip values).lookup ticket = some value ∧ holds ticket value := by
  induction each with
  | nil => cases member
  | @cons other value _ _ head _ ih =>
      rw [List.zip_cons_cons, List.lookup_cons]
      by_cases same : ticket = other
      · exact ⟨value, by simp [same], same ▸ head⟩
      · have differs : (ticket == other) = false := by simpa using same
        obtain ⟨found, located, held⟩ := ih ((List.mem_cons.1 member).resolve_left same)
        exact ⟨found, by simpa [differs] using located, held⟩

namespace RuntimeType

open Process

variable {σ : Type}

/-- What the tests reply, each asked after the ones before it. -/
def askAll (application : Application σ) (info : Info) (value : Value) :
    List (TypeId × Slot) → World σ → List (TypeId × Reply) × World σ
  | [], world => ([], world)
  | (type, test) :: rest, world =>
    let asked := (test.ask fun id => .isTypeOf id type value info).run (World.ask application) world
    let others := askAll application info value rest asked.2
    ((type, asked.1) :: others.1, others.2)

/-- Whether a test says yes at once. -/
def saysYes : Reply → Bool
  | .ok (.deferred _) => false
  | .ok answer => answer.isTruthy
  | .error _ => false

/-- Whether a test says yes at once, or in the end if it takes time. -/
def comesToYes (results : Nat → Value) : Reply → Bool
  | .ok (.deferred ticket) => (results ticket).isTruthy
  | reply => saysYes reply

/-- The types whose tests take time, with the deferred results. -/
def postponed (replies : List (TypeId × Reply)) : List (TypeId × Nat) :=
  replies.filterMap fun
    | (type, .ok (.deferred ticket)) => some (type, ticket)
    | _ => none

theorem postponed_deferred (type : TypeId) (ticket : Nat) (rest : List (TypeId × Reply)) :
    postponed ((type, .ok (.deferred ticket)) :: rest) = (type, ticket) :: postponed rest := rfl

theorem call_eq_act (test : Slot) (asked : Nat → Call) (next : Reply → Program) :
    test.call asked next = .act (test.ask asked) next := by
  cases test <;> rfl

theorem complete_closing (application : Application σ) (tickets : List Nat) (next : Program)
    (world : World σ) :
    ∃ later, complete application (.closing tickets next) world
      = complete application next later := by
  rw [Program.closing]
  split
  · exact ⟨world, rfl⟩
  · exact ⟨_, complete_perform application (.close tickets) next world⟩

theorem waits_ask (application : Application σ) (test : Slot) (asked : Nat → Call)
    {world : World σ} (timely : world.Timely) :
    ((test.ask asked).run (World.ask application) world).2.Timely
      ∧ ((test.ask asked).run (World.ask application) world).2.tickets = world.tickets := by
  cases test with
  | function id => exact ⟨(World.invariant_timely application).ask timely _, rfl⟩
  | other value => exact ⟨timely, rfl⟩
  | absent => exact ⟨timely, rfl⟩

theorem waits_askAll (application : Application σ) (info : Info) (value : Value)
    (tests : List (TypeId × Slot)) {world : World σ} (timely : world.Timely) :
    (askAll application info value tests world).2.Timely
      ∧ (askAll application info value tests world).2.tickets = world.tickets := by
  induction tests generalizing world with
  | nil => exact ⟨timely, rfl⟩
  | cons entry rest ih =>
      obtain ⟨timely', tickets⟩ := waits_ask application entry.2
        (fun id => .isTypeOf id entry.1 value info) timely
      obtain ⟨timely'', tickets'⟩ := ih timely'
      exact ⟨timely'', tickets'.trans tickets⟩

section

variable (application : Application σ) (setting : Setting) (info : Info) (value : Value)
variable (next : Except Failure (Option TypeId) → Program)

/-- The first test that says yes at once decides, whatever was deferred before it. -/
theorem complete_askTypes_of_yes {tests : List (TypeId × Slot)} {deferred : List (TypeId × Nat)}
    {world : World σ}
    (answered : ∀ entry ∈ (askAll application info value tests world).1,
      ∃ answer, entry.2 = .ok answer)
    {type : TypeId} {reply : Reply}
    (first : (askAll application info value tests world).1.find? (fun entry => saysYes entry.2)
      = some (type, reply)) :
    ∃ later, complete application (askTypes setting info value next tests deferred) world
      = complete application (next (.ok (some type))) later := by
  induction tests generalizing deferred world with
  | nil => cases first
  | cons entry rest ih =>
      obtain ⟨own, test⟩ := entry
      obtain ⟨answer, replied⟩ := answered _ List.mem_cons_self
      have others := fun entry member => answered entry (List.mem_cons_of_mem _ member)
      simp only at replied
      simp only [askAll, replied, List.find?_cons] at first
      rw [askTypes, call_eq_act, complete_act, replied]
      cases answer with
      | deferred ticket => exact ih others first
      | _ =>
          simp only
          split
          · next truthy =>
              simp only [saysYes, truthy] at first
              cases first
              exact complete_closing application _ _ _
          · next falsy =>
              simp only [saysYes, falsy] at first
              exact ih others first

theorem complete_askTypes_of_no {tests : List (TypeId × Slot)} {deferred : List (TypeId × Nat)}
    {world : World σ}
    (answered : ∀ entry ∈ (askAll application info value tests world).1,
      ∃ answer, entry.2 = .ok answer)
    (no : (askAll application info value tests world).1.find? (fun entry => saysYes entry.2)
      = none) :
    complete application (askTypes setting info value next tests deferred) world
      = complete application (decideDeferred setting
          (deferred ++ postponed (askAll application info value tests world).1) next)
        (askAll application info value tests world).2 := by
  induction tests generalizing deferred world with
  | nil => rw [askTypes, askAll, postponed, List.filterMap_nil, List.append_nil]
  | cons entry rest ih =>
      obtain ⟨own, test⟩ := entry
      obtain ⟨answer, replied⟩ := answered _ List.mem_cons_self
      have others := fun entry member => answered entry (List.mem_cons_of_mem _ member)
      simp only at replied
      simp only [askAll, replied, List.find?_cons] at no
      simp only [askTypes, call_eq_act, complete_act, askAll, replied]
      cases answer with
      | deferred ticket =>
          rw [postponed_deferred, List.append_cons]
          exact ih others no
      | _ =>
          simp only
          split
          · next truthy =>
              simp only [saysYes, truthy] at no
              cases no
          · next falsy =>
              simp only [saysYes, falsy] at no
              exact ih others no

/-- The deferred tests are all waited for, and the first of them that holds decides. -/
theorem complete_decideDeferred {deferred : List (TypeId × Nat)} {world : World σ}
    (timely : world.Timely)
    (promises : ∀ entry ∈ deferred, world.Promises application entry.2)
    (allowed : setting.synchronous = true → deferred = []) :
    ∃ (results : Nat → Value) (later : World σ),
      (∀ entry ∈ deferred, later.Saw (.settled entry.2 (.ok (results entry.2))))
      ∧ complete application (decideDeferred setting deferred next) world
        = complete application (next (.ok ((deferred.find? fun entry =>
          (results entry.2).isTruthy).map (·.1)))) later := by
  simp only [decideDeferred]
  split
  · next empty =>
      rw [List.isEmpty_iff.1 empty]
      exact ⟨fun _ => .null, world, List.forall_mem_nil _, rfl⟩
  · next some_ =>
      have asynchronous : ¬ setting.synchronous = true :=
        fun synchronous => some_ (List.isEmpty_iff.2 (allowed synchronous))
      have inside : ∀ ticket, ticket ∈ (deferred.map (·.2)).eraseDups ↔
          ∃ entry ∈ deferred, entry.2 = ticket := by
        simp [List.mem_eraseDups]
      rw [if_neg asynchronous]
      have awaited : ∀ ticket ∈ (deferred.map (·.2)).eraseDups,
          world.Promises application ticket := by
        intro ticket member
        obtain ⟨entry, own, rfl⟩ := (inside ticket).1 member
        exact promises entry own
      obtain ⟨values, later, settled, completed⟩ :=
        complete_wait application timely (nodup_eraseDups _) awaited
      -- tests that share a result all find what it has come to
      let results (ticket : Nat) : Value :=
        (((deferred.map (·.2)).eraseDups.zip values).lookup ticket).getD .null
      have found : ∀ entry ∈ deferred,
          ((deferred.map (·.2)).eraseDups.zip values).lookup entry.2 = some (results entry.2)
            ∧ later.Saw (.settled entry.2 (.ok (results entry.2))) := by
        intro entry member
        obtain ⟨value, located, held⟩ :=
          lookup_zip settled ((inside entry.2).2 ⟨entry, member, rfl⟩)
        have same : results entry.2 = value := by simp [results, located]
        exact ⟨by rw [located, same], by rw [same]; exact held⟩
      refine ⟨results, later, fun entry member => (found entry member).2, (completed _).trans ?_⟩
      have chosen : deferred.find? (fun entry =>
            (((deferred.map (·.2)).eraseDups.zip values).lookup entry.2).any Value.isTruthy)
          = deferred.find? fun entry => (results entry.2).isTruthy :=
        List.find?_congr fun entry member => by rw [(found entry member).1, Option.any_some]
      simp only [firstHolding, chosen]

end

/-- Where no test says yes at once, a yes can only come from what is deferred. -/
theorem find?_comesToYes (results : Nat → Value) (replies : List (TypeId × Reply))
    (no : replies.find? (fun entry => saysYes entry.2) = none) :
    (replies.find? fun entry => comesToYes results entry.2).map (·.1)
      = ((postponed replies).find? fun entry => (results entry.2).isTruthy).map (·.1) := by
  induction replies with
  | nil => rfl
  | cons entry rest ih =>
      obtain ⟨type, reply⟩ := entry
      rw [List.find?_cons] at no
      cases said : saysYes reply with
      | true =>
          simp only [said] at no
          cases no
      | false =>
          simp only [said] at no
          cases reply with
          | error failure => exact ih no
          | ok answer =>
              cases answer with
              | deferred ticket =>
                  rw [postponed_deferred, List.find?_cons, List.find?_cons]
                  simp only [comesToYes]
                  cases (results ticket).isTruthy with
                  | true => rfl
                  | false => exact ih no
              | _ =>
                  rw [List.find?_cons]
                  simp only [comesToYes, said]
                  exact ih no

theorem askAll_onto (application : Application σ) (info : Info) (value : Value)
    (past : List (Nat × Event)) (tests : List (TypeId × Slot)) (world : World σ) :
    (askAll application info value tests (world.onto past)).1
      = (askAll application info value tests world).1 := by
  induction tests generalizing world with
  | nil => rfl
  | cons entry rest ih =>
      simp only [askAll, World.run_onto, ih]

/-- Goes on with the value that stands for a type that was found, or with null if there is none. -/
def handOn (setting : Setting) (next : Outcome → Program) :
    Except Failure (Option TypeId) → Program
  | .ok choice => next (.ok (choice.elim .null fun type =>
      setting.schema.catalog.value (.named type)))
  | .error failure => next (.error failure)

theorem byDefault_of_unnamed {setting : Setting} (info : Info) {abstract : TypeId} {value : Value}
    {possible : List Candidate} (next : Outcome → Program)
    (unnamed : ∀ name, value.get? "__typename" ≠ some (.str name))
    (known : setting.schema.possibleTypes abstract = .ok possible) :
    byDefault setting info abstract value next
      = askTypes setting info value (handOn setting next) (tested setting.schema possible) [] := by
  unfold byDefault
  split
  · next name named => exact absurd named (unnamed name)
  · simp only [known]
    congr 1
    funext result
    rcases result with failure | _ | type <;> rfl

theorem byDefault_of_yes (application : Application σ) {setting : Setting} (info : Info)
    {abstract : TypeId} {value : Value} {possible : List Candidate} {world : World σ}
    (unnamed : ∀ name, value.get? "__typename" ≠ some (.str name))
    (known : setting.schema.possibleTypes abstract = .ok possible)
    (answered : ∀ entry ∈
      (askAll application info value (tested setting.schema possible) world).1,
      ∃ answer, entry.2 = .ok answer)
    {type : TypeId} {reply : Reply}
    (first : (askAll application info value (tested setting.schema possible) world).1.find?
      (fun entry => saysYes entry.2) = some (type, reply)) :
    (complete application (byDefault setting info abstract value .done) world).1
      = .ok (setting.schema.catalog.value (.named type)) := by
  obtain ⟨later, completed⟩ :=
    complete_askTypes_of_yes application setting info value _ answered first
  rw [byDefault_of_unnamed info .done unnamed known, completed, handOn, complete_done,
    Option.elim_some]

/-- The type of a value that does not name its type is the first possible type whose test says yes
at once. Without one it is the first possible type whose test says yes in the end, when everything
that was deferred has come to its result, and without one of these either there is none. -/
theorem first_yes_is_chosen (application : Application σ) (setting : Setting) (info : Info)
    (abstract : TypeId) (value : Value) (possible : List Candidate) (world : World σ)
    (replies : List (TypeId × Reply)) (found : Outcome) (final : World σ)
    (unnamed : ∀ name, value.get? "__typename" ≠ some (.str name))
    (known : setting.schema.possibleTypes abstract = .ok possible)
    (asked : replies
      = (askAll application info value (tested setting.schema possible) world).1)
    (ran : (found, final)
      = complete application (byDefault setting info abstract value .done) world)
    (timely : world.Timely)
    (answered : ∀ entry ∈ replies, ∃ answer, entry.2 = .ok answer)
    (promises : ∀ entry ∈ postponed replies, world.Promises application entry.2) :
    (∀ type reply, replies.find? (fun entry => saysYes entry.2) = some (type, reply) →
      found = .ok (setting.schema.catalog.value (.named type)))
    ∧ (replies.find? (fun entry => saysYes entry.2) = none →
      (setting.synchronous = true → postponed replies = []) →
      ∃ results recent, final.past = recent ++ world.past
        ∧ (∀ entry ∈ postponed replies, ∃ time,
          (time, .settled entry.2 (.ok (results entry.2))) ∈ recent)
        ∧ found = .ok ((replies.find? fun entry => comesToYes results entry.2).elim .null
          fun entry => setting.schema.catalog.value (.named entry.1))) := by
  constructor
  · intro type reply first
    rw [asked] at answered first
    exact (congrArg Prod.fst ran).trans
      (byDefault_of_yes application info unnamed known answered first)
  · intro no allowed
    -- The run is looked at without what happened before it, so that all it saw is its own.
    let fresh : World σ := { world with past := [] }
    have same : (askAll application info value (tested setting.schema possible) fresh).1
        = replies := by
      rw [asked, ← askAll_onto application info value world.past, World.onto_unburdened]
    obtain ⟨timely', tickets⟩ := waits_askAll application info value
      (tested setting.schema possible)
      (timely.of_same rfl rfl fun _ runs => runs : fresh.Timely)
    have promises' : ∀ entry ∈ postponed replies,
        (askAll application info value (tested setting.schema possible) fresh).2.Promises
          application entry.2 := by
      intro entry member
      refine ⟨?_, (promises entry member).succeeds⟩
      rw [World.status?, tickets]
      exact (promises entry member).unused
    rw [← same] at answered no promises' allowed
    obtain ⟨results, later, settled, completed⟩ := complete_decideDeferred application setting
      (handOn setting .done) timely' promises' allowed
    rw [World.complete_unburdened, byDefault_of_unnamed info .done unnamed known,
      complete_askTypes_of_no application setting info value _ answered no, List.nil_append,
      completed, ← find?_comesToYes results _ no, same, handOn, complete_done,
      Option.elim_map] at ran
    obtain ⟨rfl, rfl⟩ := Prod.mk.inj ran
    exact ⟨results, later.past, rfl, same ▸ settled, rfl⟩

end RuntimeType

/-- Tests that both say yes, the first after a while and the second sooner, or at once. -/
def Application.agreeing (quick : Bool) : Application Unit where
  answer asked _ :=
    (match asked with
      | .isTypeOf 1 .. => .ok (.deferred 0)
      | _ => .ok (if quick then .bool true else .deferred 1), ())
  drain _ _ := (([], none), ())
  delay ticket _ := 2 - ticket
  finish _ _ := (.ok (.bool true), ())

/-- Whether a result that comes is a yes. -/
def Event.isYes : Event → Bool
  | .settled _ (.ok answer) => answer.isTruthy
  | .settled .. => false
  | _ => true

namespace RuntimeType

open Process Request

/-- What is asked about the value of the field in `Operation.tested`. -/
def infoOfTested : Info :=
  ⟨Request.settingOfTested.environment, "u", [], .named (.declared 1), .declared 0,
    .start (.name "u")⟩

/-- The replies of the two tests. -/
def repliesOfAgreeing (quick : Bool) : List (TypeId × Reply) :=
  [(.declared 2, .ok (.deferred 0)),
    (.declared 3, .ok (if quick then .bool true else .deferred 1))]

/-- What the two tests decide. -/
def foundByAgreeing (quick : Bool) : Outcome × World Unit :=
  complete (.agreeing quick) (byDefault settingOfTested infoOfTested (.declared 1) .null .done)
    { state := () }

set_option maxRecDepth 10000 in
theorem possibleTypes_tested : settingOfTested.schema.possibleTypes (.declared 1)
    = .ok [.named (.declared 2), .named (.declared 3)] := by
  cbv

theorem answered_agreeing (quick : Bool) :
    ∀ entry ∈ repliesOfAgreeing quick, ∃ answer, entry.2 = .ok answer := by
  simp [repliesOfAgreeing]

/-- A test that says yes at once is chosen before one that comes to a yes later, also if its type
comes after the type of the other one. -/
theorem test_at_once_precedes_earlier_type :
    (askAll (.agreeing true) infoOfTested .null
        (tested settingOfTested.schema [.named (.declared 2), .named (.declared 3)])
        { state := () }).1 = repliesOfAgreeing true
      ∧ (∀ state, ((Application.agreeing true).finish 0 state).1 = .ok (.bool true))
      ∧ (foundByAgreeing true).1
        ≠ .ok (((repliesOfAgreeing true).find? fun entry =>
          comesToYes (fun _ => .bool true) entry.2).elim .null fun entry =>
            settingOfTested.schema.catalog.value (.named entry.1)) := by
  refine ⟨rfl, fun _ => rfl, ?_⟩
  have chosen : (foundByAgreeing true).1
      = .ok (settingOfTested.schema.catalog.value (.named (.declared 3))) :=
    byDefault_of_yes (.agreeing true) infoOfTested (fun _ named => by cases named)
      possibleTypes_tested (answered_agreeing true) rfl
  rw [chosen]
  intro same
  cases same

set_option maxRecDepth 10000 in
theorem isYes_agreeing :
    (foundByAgreeing false).2.past.all (fun entry => entry.2.isYes) = true := by
  rw [foundByAgreeing,
    byDefault_of_unnamed infoOfTested .done (fun _ named => by cases named) possibleTypes_tested]
  exact complete_of_within 5 (fun result => result.2.past.all fun entry => entry.2.isYes) (by cbv)

theorem slower_test_of_earlier_type_is_chosen :
    (foundByAgreeing false).1
      = .ok (settingOfTested.schema.catalog.value (.named (.declared 2))) := by
  obtain ⟨results, recent, past, settled, decided⟩ := (first_yes_is_chosen (.agreeing false)
    settingOfTested infoOfTested (.declared 1) .null [.named (.declared 2), .named (.declared 3)]
    { state := () } (repliesOfAgreeing false) (foundByAgreeing false).1 (foundByAgreeing false).2
    (fun _ named => by cases named) possibleTypes_tested rfl rfl (World.timely_start ())
    (answered_agreeing false) (fun _ _ => ⟨rfl, fun _ => ⟨.bool true, rfl⟩⟩)).2 rfl
    (fun synchronous => by cases synchronous)
  obtain ⟨time, came⟩ := settled (.declared 2, 0) List.mem_cons_self
  have inside : (time, Event.settled 0 (.ok (results 0))) ∈ (foundByAgreeing false).2.past :=
    past ▸ List.mem_append_left _ came
  have yes : (results 0).isTruthy = true := List.all_eq_true.1 isYes_agreeing _ inside
  rw [decided]
  simp [repliesOfAgreeing, comesToYes, yes]

end RuntimeType

end GraphQL
