import GraphQL.Proofs.Moments

/-!
Programs in sequence. A program that another one follows is run to its end before the other one is
begun, and nothing that the first one waits for tells whether anything comes after it.
-/

namespace GraphQL

namespace Process

variable {σ : Type}

/-- A process that goes on with another program in the end. -/
def extend (next : Outcome → Program) : Process → Process
  | finished outcome => finished outcome
  | waiting slots rest => waiting slots fun result => (rest result).andThen next
  | joining children rest => joining children fun settled => (rest settled).andThen next

/-- A process that is extended, or, once it is finished, the program that comes after it. -/
def followedBy (go : Program → World σ → Process × World σ) (next : Outcome → Program) :
    Process × World σ → Process × World σ
  | (finished outcome, world) => go (next outcome) world
  | (process, world) => (process.extend next, world)

variable {next : Outcome → Program}

theorem followedBy_unfinished (go : Program → World σ → Process × World σ) {process : Process}
    (unfinished : ∀ outcome, process ≠ finished outcome) (world : World σ) :
    followedBy go next (process, world) = (process.extend next, world) := by
  cases process with
  | finished outcome => exact absurd rfl (unfinished outcome)
  | _ => rfl

theorem extend_unfinished {process : Process}
    (unfinished : ∀ outcome, process ≠ finished outcome) :
    ∀ outcome, process.extend next ≠ finished outcome := by
  intro outcome same
  cases process with
  | finished other => exact unfinished other rfl
  | _ => cases same

theorem start_andThen (application : Application σ) (program : Program) (next : Outcome → Program)
    (world : World σ) :
    start application (program.andThen next) world
      = followedBy (start application) next (start application program world) := by
  match program with
  | .done outcome => simp only [Program.andThen, start, followedBy]
  | .call asked reply =>
      simp only [Program.andThen, start]
      exact start_andThen application (reply _) next _
  | .perform effect rest =>
      simp only [Program.andThen, start]
      exact start_andThen application rest next _
  | .consult key rest =>
      simp only [Program.andThen, start]
      exact start_andThen application (rest _) next _
  | .drain handle rest =>
      simp only [Program.andThen, start]
      exact start_andThen application (rest _ _) next _
  | .wait tickets rest =>
      cases tickets with
      | nil =>
          simp only [Program.andThen, start]
          exact start_andThen application (rest _) next _
      | cons ticket tickets => simp only [Program.andThen, start, followedBy, extend]
  | .join children rest =>
      simp only [Program.andThen, start]
      split
      · exact start_andThen application (rest _) next _
      · split
        · exact start_andThen application (rest _) next _
        · rfl

theorem begin_andThen (application : Application σ) (program : Program) (next : Outcome → Program)
    (world : World σ) :
    begin application (program.andThen next) world
      = followedBy (begin application) next (begin application program world) := by
  rw [begin, start_andThen, begin]
  generalize start application program world = started
  obtain ⟨process, later⟩ := started
  cases process with
  | finished outcome => simp only [followedBy, launch, begin]
  | waiting slots rest => simp only [followedBy, launch, extend]
  | joining children rest => simp only [followedBy, launch, extend]

theorem resume_extend (application : Application σ) (waiter : Nat) (reply : Reply)
    (process : Process) (world : World σ) :
    resume application waiter reply (process.extend next) world
      = (resume application waiter reply process world).map
        (followedBy (begin application) next) := by
  cases process with
  | finished outcome => simp only [extend, resume, Option.map_none]
  | waiting slots rest =>
      simp only [extend, resume]
      split
      · cases reply with
        | error failure => simp only [Option.map_some, begin_andThen]
        | ok value =>
            simp only
            split
            · simp only [Option.map_some, begin_andThen]
            · rfl
      · rfl
  | joining children rest =>
      simp only [extend, resume]
      split
      · rfl
      · split
        · simp only [Option.map_some, begin_andThen]
        · rfl

theorem wake_extend (application : Application σ) (timer : Timer) {process : Process}
    (unfinished : ∀ outcome, process ≠ finished outcome) (world : World σ) :
    wake application timer (process.extend next) world
      = followedBy (begin application) next (wake application timer process world) := by
  simp only [wake, resume_extend]
  cases resume application timer.waiter (world.fire application timer).1 process
      (world.fire application timer).2 with
  | none => exact (followedBy_unfinished _ unfinished _).symm
  | some after => rfl

theorem unfinished_of_step {application : Application σ} {process : Process} {world : World σ}
    {after : Process × World σ} (step : step? application process world = some after) :
    ∀ outcome, process ≠ finished outcome := by
  rintro outcome rfl
  cases step

theorem step?_extend {application : Application σ} {process after : Process} {world later : World σ}
    (step : step? application process world = some (after, later)) :
    step? application (process.extend next) world
      = some (followedBy (begin application) next (after, later)) := by
  have unfinished := unfinished_of_step step
  rw [step?_of_unfinished unfinished] at step
  obtain ⟨timer, found, woken⟩ := Option.map_eq_some_iff.1 step
  rw [step?_of_unfinished (extend_unfinished unfinished), found, Option.map_some,
    wake_extend application timer unfinished, woken]

/-- The states that a process passes through. -/
inductive Visits (application : Application σ) : Process → World σ → Process → World σ → Prop where
  | here (process : Process) (world : World σ) : Visits application process world process world
  | step {process after last : Process} {world later final : World σ} :
    step? application process world = some (after, later) →
    Visits application after later last final → Visits application process world last final

theorem Visits.trans {application : Application σ} {first second third : Process}
    {before middle after : World σ} (left : Visits application first before second middle)
    (right : Visits application second middle third after) :
    Visits application first before third after := by
  induction left with
  | here => exact right
  | step moved _ ih => exact .step moved (ih right)

theorem Visits.extend {application : Application σ} {process last : Process} {world final : World σ}
    (visits : Visits application process world last final) :
    Visits application (followedBy (begin application) next (process, world)).1
      (followedBy (begin application) next (process, world)).2
      (followedBy (begin application) next (last, final)).1
      (followedBy (begin application) next (last, final)).2 := by
  induction visits with
  | here => exact .here _ _
  | step moved _ ih =>
      refine .step ?_ ih
      rw [followedBy_unfinished _ (unfinished_of_step moved)]
      exact step?_extend moved

theorem visits_run (application : Application σ) (process : Process) (world : World σ)
    (alive : Alive process world) :
    Visits application process world (finished (run application process world).1)
      (run application process world).2 := by
  fun_induction run application process world with
  | case1 world outcome => exact .here _ _
  | case2 world process unfinished nothing => exact absurd nothing (exists_earliest alive unfinished)
  | case3 world process unfinished timer found ignored ih =>
      exact .step (step?_of_ignored unfinished found ignored)
        (ih (alive_of_ignored application timer _ alive ignored))
  | case4 world process unfinished timer found after later resumed ih =>
      exact .step (step?_of_resumed unfinished found resumed)
        (ih (alive_of_resumed application timer _ alive _ resumed))

/-- A run ends as the run of any state that it passes through. -/
theorem Visits.run {application : Application σ} {process last : Process} {world final : World σ}
    (visits : Visits application process world last final) :
    Process.run application process world = Process.run application last final := by
  induction visits with
  | here => rfl
  | step moved _ ih =>
      rw [run_eq, moved]
      exact ih

/-- Of two programs in sequence the first is run to its end before the second is begun. -/
theorem visits_andThen (application : Application σ) (program : Program)
    (next : Outcome → Program) (world : World σ) :
    Visits application (begin application (program.andThen next) world).1
      (begin application (program.andThen next) world).2
      (begin application (next (complete application program world).1)
        (complete application program world).2).1
      (begin application (next (complete application program world).1)
        (complete application program world).2).2 := by
  have whole := visits_run application _ _ (alive_begin application program world)
  rw [begin_andThen]
  exact whole.extend

theorem complete_andThen (application : Application σ) (program : Program)
    (next : Outcome → Program) (world : World σ) :
    complete application (program.andThen next) world
      = complete application (next (complete application program world).1)
        (complete application program world).2 :=
  (visits_andThen application program next world).run

end Process

end GraphQL
