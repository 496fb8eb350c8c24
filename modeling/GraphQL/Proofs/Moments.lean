import GraphQL.Proofs.Progress
import GraphQL.Request

/-!
Runs, moment by moment. Each time that something is due, one reply is handed over; a run is these
steps one after the other, until the process is finished.
-/

namespace GraphQL

namespace Process

variable {σ : Type}

theorem start_act {α : Type} (application : Application σ) (action : Action α)
    (next : Except Failure α → Program) (world : World σ) :
    start application (Program.act action next) world
      = start application (next (action.run (World.ask application) world).1)
        (action.run (World.ask application) world).2 := by
  induction action generalizing world with
  | done result => rfl
  | call asked reply ih =>
      rw [Program.act, Action.run, start]
      exact ih _ _

/-- What a process becomes when a timer goes off. -/
def wake (application : Application σ) (timer : Timer) (process : Process) (world : World σ) :
    Process × World σ :=
  let fired := world.fire application timer
  (resume application timer.waiter fired.1 process fired.2).getD (process, fired.2)

/-- What the next due time makes of a process that still waits. -/
def step? (application : Application σ) (process : Process) (world : World σ) :
    Option (Process × World σ) :=
  match process with
  | finished _ => none
  | process =>
    (World.earliest world.timers).map fun timer => process.wake application timer world

/-- What a process that waits for nothing has come to. -/
def ending : Process → Outcome
  | finished outcome => outcome
  | _ => .error .asynchronous

theorem step?_of_unfinished {application : Application σ} {process : Process} {world : World σ}
    (unfinished : ∀ outcome, process ≠ finished outcome) :
    step? application process world
      = (World.earliest world.timers).map fun timer => process.wake application timer world := by
  cases process with
  | finished outcome => exact absurd rfl (unfinished outcome)
  | _ => rfl

theorem step?_of_ignored {application : Application σ} {process : Process} {world : World σ}
    {timer : Timer} (unfinished : ∀ outcome, process ≠ finished outcome)
    (found : World.earliest world.timers = some timer)
    (ignored : resume application timer.waiter (world.fire application timer).1 process
      (world.fire application timer).2 = none) :
    step? application process world = some (process, (world.fire application timer).2) := by
  rw [step?_of_unfinished unfinished, found, Option.map_some, wake, ignored]
  rfl

theorem step?_of_resumed {application : Application σ} {process : Process} {world : World σ}
    {timer : Timer} {after : Process × World σ}
    (unfinished : ∀ outcome, process ≠ finished outcome)
    (found : World.earliest world.timers = some timer)
    (resumed : resume application timer.waiter (world.fire application timer).1 process
      (world.fire application timer).2 = some after) :
    step? application process world = some after := by
  rw [step?_of_unfinished unfinished, found, Option.map_some, wake, resumed]
  rfl

theorem ending_of_unfinished {process : Process}
    (unfinished : ∀ outcome, process ≠ finished outcome) :
    process.ending = .error .asynchronous := by
  cases process with
  | finished outcome => exact absurd rfl (unfinished outcome)
  | _ => rfl

/-- A run takes one step after the other. -/
theorem run_eq (application : Application σ) (process : Process) (world : World σ) :
    run application process world
      = match step? application process world with
        | some (after, later) => run application after later
        | none => (process.ending, world) := by
  cases process with
  | finished outcome => rw [run, step?, ending]
  | _ =>
    rw [run, step?_of_unfinished (fun _ same => by cases same)]
    · cases found : World.earliest world.timers with
      | none => rfl
      | some timer =>
        simp only [Option.map_some, wake]
        split
        · next ignored => rw [ignored, Option.getD_none]
        · next after later resumed => rw [resumed, Option.getD_some]
    · intro _ same
      cases same

/-- A run that is followed for a number of steps only. -/
def runWithin (application : Application σ) :
    (steps : Nat) → Process → World σ → Option (Outcome × World σ)
  | 0, _, _ => none
  | steps + 1, process, world =>
    match step? application process world with
    | some (after, later) => runWithin application steps after later
    | none => some (process.ending, world)

theorem run_of_within {application : Application σ} (steps : Nat) {process : Process}
    {world : World σ} {result : Outcome × World σ}
    (within : runWithin application steps process world = some result) :
    run application process world = result := by
  induction steps generalizing process world with
  | zero => cases within
  | succ steps ih =>
      rw [runWithin] at within
      rw [run_eq]
      split at within
      · next after later step => exact ih within
      · next step => exact Option.some.inj within

/-- Carries a program out to its end, however long that takes. -/
def complete (application : Application σ) (program : Program) (world : World σ) :
    Outcome × World σ :=
  run application (begin application program world).1 (begin application program world).2

theorem complete_of_within {application : Application σ} (steps : Nat) {program : Program}
    {world : World σ} (test : Outcome × World σ → Bool)
    (passed : (runWithin application steps (begin application program world).1
      (begin application program world).2).any test = true) :
    test (complete application program world) = true := by
  obtain ⟨result, within, holds⟩ := (Option.any_eq_true _ _).1 passed
  rw [complete, run_of_within steps within]
  exact holds

/-- Whether a program has to wait before it comes to an end. -/
def defers (application : Application σ) (program : Program) (world : World σ) : Bool :=
  match (begin application program world).1 with
  | finished _ => false
  | _ => true

end Process

namespace Request

variable {σ : Type}

theorem carryOut_eq (application : Application σ) (synchronous : Bool) (program : Program)
    (world : World σ) :
    carryOut application synchronous program world
      = respond synchronous (Process.defers application program world)
        (Process.complete application program world).1
        (Process.complete application program world).2 := by
  unfold carryOut Process.complete Process.defers
  split
  · next outcome later begun =>
      rw [begun, Process.run]
  · next process later unfinished begun =>
      rw [begun]
      cases process with
      | finished outcome => exact (unfinished outcome rfl).elim
      | _ => rfl

/-- What is carried out in a number of steps. -/
def carryOutWithin (application : Application σ) (synchronous : Bool) (steps : Nat)
    (program : Program) (world : World σ) : Option (Report σ) :=
  (Process.runWithin application steps (Process.begin application program world).1
      (Process.begin application program world).2).map fun result =>
    respond synchronous (Process.defers application program world) result.1 result.2

theorem carryOut_of_within {application : Application σ} {synchronous : Bool} (steps : Nat)
    {program : Program} {world : World σ} (test : Report σ → Bool)
    (passed : (carryOutWithin application synchronous steps program world).any test = true) :
    test (carryOut application synchronous program world) = true := by
  rw [carryOutWithin, Option.any_map] at passed
  rw [carryOut_eq]
  exact Process.complete_of_within steps _ passed

end Request

end GraphQL
