import GraphQL.Proofs.Backward
import GraphQL.Proofs.Policy

/-!
What holds of every error that a run records and of what it comes to, the parts that are given up
included. A program upholds a condition if each of its steps does, whatever the application answers;
a join may assume of its parts what each of them comes to.
-/

namespace GraphQL

/-- What is known of the siblings that a join goes on from. -/
def SettledAs (middle : Outcome → Prop) : Except Failure (List Outcome) → Prop
  | .ok outcomes => ∀ outcome ∈ outcomes, middle outcome
  | .error failure => middle (.error failure)

namespace Program

mutual

/-- Records only errors that fit, and comes only to good outcomes. -/
def Upholds (account : Account) (fits : ResponseError → Prop) (good : Outcome → Prop) :
    Program → Prop
  | .done outcome => good outcome
  | .call asked next => ∀ reply, account.called asked reply → (next reply).Upholds account fits good
  | .perform effect next => (∀ error ∈ effect.errors, fits error) ∧ next.Upholds account fits good
  | .consult key next =>
    ∀ found, account.Consulted key found → (next found).Upholds account fits good
  | .drain handle next => ∀ items fault, account.drained handle items fault →
    (next items fault).Upholds account fits good
  | .wait tickets next =>
    ∀ result, account.Awaited tickets result → (next result).Upholds account fits good
  | .join children next => ∃ middle, UpholdEach account fits middle children
    ∧ ∀ settled, SettledAs middle settled → (next settled).Upholds account fits good

def UpholdEach (account : Account) (fits : ResponseError → Prop) (good : Outcome → Prop) :
    List Program → Prop
  | [] => True
  | program :: rest =>
    program.Upholds account fits good ∧ UpholdEach account fits good rest

end

variable {account : Account} {fits : ResponseError → Prop} {good middle : Outcome → Prop}

theorem upholdEach_iff (programs : List Program) :
    UpholdEach account fits good programs
      ↔ ∀ program ∈ programs, program.Upholds account fits good := by
  induction programs with
  | nil => simp only [UpholdEach, List.not_mem_nil, false_imp_iff, implies_true]
  | cons program rest ih => simp only [UpholdEach, ih, List.forall_mem_cons]

theorem upholds_done (outcome : Outcome) (holds : good outcome) :
    (done outcome).Upholds account fits good :=
  holds

theorem upholds_fail (failure : Failure) (holds : good (.error failure)) :
    (fail failure).Upholds account fits good :=
  upholds_done _ holds

theorem upholds_call (asked : Call) (next : Reply → Program)
    (each : ∀ reply, account.called asked reply → (next reply).Upholds account fits good) :
    (call asked next).Upholds account fits good :=
  each

theorem upholds_perform (effect : Effect) (next : Program) (silent : effect.errors = [])
    (rest : next.Upholds account fits good) :
    (perform effect next).Upholds account fits good := by
  refine ⟨fun error inside => ?_, rest⟩
  rw [silent] at inside
  cases inside

theorem upholds_record (error : ResponseError) (next : Program) (fitting : fits error)
    (rest : next.Upholds account fits good) :
    (perform (.record error) next).Upholds account fits good :=
  ⟨List.forall_mem_singleton.2 fitting, rest⟩

theorem upholds_join (children : List Program) (next : Except Failure (List Outcome) → Program)
    (each : ∀ child ∈ children, child.Upholds account fits middle)
    (settled : ∀ result, SettledAs middle result → (next result).Upholds account fits good) :
    (join children next).Upholds account fits good :=
  ⟨middle, (upholdEach_iff children).2 each, settled⟩

theorem upholds_andThen (program : Program) (next : Outcome → Program)
    (first : program.Upholds account fits middle)
    (second : ∀ outcome, middle outcome → (next outcome).Upholds account fits good) :
    (program.andThen next).Upholds account fits good := by
  match program with
  | done outcome =>
      simp only [Upholds] at first
      exact second outcome first
  | call asked reply =>
      simp only [andThen, Upholds] at first ⊢
      exact fun answer called => upholds_andThen (reply answer) next (first answer called) second
  | perform effect rest =>
      simp only [andThen, Upholds] at first ⊢
      exact ⟨first.1, upholds_andThen rest next first.2 second⟩
  | consult key rest =>
      simp only [andThen, Upholds] at first ⊢
      exact fun found known => upholds_andThen (rest found) next (first found known) second
  | drain handle rest =>
      simp only [andThen, Upholds] at first ⊢
      exact fun items fault drained =>
        upholds_andThen (rest items fault) next (first items fault drained) second
  | wait tickets rest =>
      simp only [andThen, Upholds] at first ⊢
      exact fun result awaited => upholds_andThen (rest result) next (first result awaited) second
  | join children rest =>
      simp only [andThen, Upholds] at first ⊢
      obtain ⟨between, each, settled⟩ := first
      exact ⟨between, each, fun result known =>
        upholds_andThen (rest result) next (settled result known) second⟩

theorem upholds_act {α : Type} (action : Action α) (next : Except Failure α → Program)
    (each : ∀ result, action.Yields account result → (next result).Upholds account fits good) :
    (act action next).Upholds account fits good := by
  induction action with
  | done result => exact each result rfl
  | call asked reply ih =>
      exact upholds_call _ _ fun answer called => ih answer fun result yields =>
        each result ⟨answer, called, yields⟩

theorem upholds_await (ticket : Nat) (next : Outcome → Program)
    (each : ∀ reply, account.came ticket reply → (next reply).Upholds account fits good) :
    (await ticket next).Upholds account fits good := by
  intro result awaited
  cases result with
  | error failure =>
      obtain ⟨found, member, came⟩ := awaited
      rw [List.mem_singleton.1 member] at came
      exact each _ came
  | ok values =>
      cases awaited with
      | cons came others =>
          cases others
          exact each _ came

theorem upholds_closing (tickets : List Nat) (next : Program)
    (rest : next.Upholds account fits good) : (closing tickets next).Upholds account fits good := by
  unfold closing
  split
  · exact rest
  · exact upholds_perform _ _ rfl rest

end Program

/-- Whether all errors that were recorded fit. -/
def World.Fits {σ : Type} (fits : ResponseError → Prop) (world : World σ) : Prop :=
  ∀ error ∈ world.errors, fits error

theorem World.fits_perform {σ : Type} {fits : ResponseError → Prop} {world : World σ}
    (effect : Effect) (fitting : ∀ error ∈ effect.errors, fits error) (before : world.Fits fits) :
    (world.perform effect).Fits fits := by
  intro error member
  obtain earlier | new := (splits_perform world effect []).sound error member
  · exact before error earlier
  · rw [List.append_nil] at new
    exact fitting error new

namespace Process

variable {σ : Type} {fits : ResponseError → Prop} {good : Outcome → Prop}

mutual

/-- A process whose remaining steps uphold a condition, by what its run is known to bring. -/
def Upholds (final : World σ) (fits : ResponseError → Prop) (good : Outcome → Prop) :
    Process → Prop
  | finished outcome => good outcome
  | waiting slots next => ∀ result, Pending.AllGet final slots result →
    (next result).Upholds final.account fits good
  | joining children next => ∃ middle, UpholdEach final fits middle children
    ∧ ∀ settled, SettledAs middle settled → (next settled).Upholds final.account fits good

def UpholdEach (final : World σ) (fits : ResponseError → Prop) (good : Outcome → Prop) :
    List Process → Prop
  | [] => True
  | process :: rest => process.Upholds final fits good ∧ UpholdEach final fits good rest

end

theorem upholdEach_finished (final : World σ) (outcomes : List Outcome) :
    UpholdEach final fits good (outcomes.map finished) ↔ SettledAs good (.ok outcomes) := by
  induction outcomes with
  | nil =>
      simp only [List.map_nil, UpholdEach, SettledAs, List.not_mem_nil, false_imp_iff, implies_true]
  | cons outcome rest ih =>
      simp only [List.map_cons, UpholdEach, Upholds, ih, SettledAs, List.forall_mem_cons]

variable {application : Application σ} {final : World σ}

mutual

theorem CarriedTo.upholds {good : Outcome → Prop} {program : Program} {world after : World σ}
    {process : Process} (carried : CarriedTo application program world process after)
    (leads : after.Leads final) (upholds : program.Upholds final.account fits good)
    (before : world.Fits fits) : process.Upholds final fits good ∧ after.Fits fits := by
  match carried with
  | .done _ _ =>
      simp only [Upholds, Program.Upholds] at upholds ⊢
      exact ⟨upholds, before⟩
  | .call asked rest =>
      simp only [Program.Upholds] at upholds
      have saw := (rest.leads.trans leads).saw (World.saw_ask application asked world)
      exact rest.upholds leads (upholds _ saw) before
  | .perform effect rest =>
      simp only [Program.Upholds] at upholds
      exact rest.upholds leads upholds.2 (World.fits_perform effect upholds.1 before)
  | .consult key rest =>
      simp only [Program.Upholds] at upholds
      have consulted := consulted_of_consult final key world (rest.leads.trans leads)
      exact rest.upholds leads (upholds _ consulted) before
  | .drain handle rest =>
      simp only [Program.Upholds] at upholds
      have saw := (rest.leads.trans leads).saw (World.saw_drain application handle world)
      exact rest.upholds leads (upholds _ _ saw) before
  | .unawaited rest =>
      simp only [Program.Upholds] at upholds
      exact rest.upholds leads (upholds (.ok []) .nil) before
  | .wait _ _ _ _ =>
      simp only [Program.Upholds, Upholds] at upholds ⊢
      exact ⟨fun result gets => upholds result (Pending.allGet_tickets final _ result gets), before⟩
  | .broken _ broken rest =>
      simp only [Program.Upholds] at upholds
      obtain ⟨middle, every, settled⟩ := upholds
      obtain ⟨failed, fits'⟩ := broken.upholds (rest.leads.trans leads) every before
      exact rest.upholds leads (settled _ failed) fits'
  | .settled outcomes each rest =>
      simp only [Program.Upholds] at upholds
      obtain ⟨middle, every, settled⟩ := upholds
      obtain ⟨made, fits'⟩ := each.upholds (rest.leads.trans leads) every before
      exact rest.upholds leads (settled _ ((upholdEach_finished final outcomes).1 made)) fits'
  | .join each _ =>
      simp only [Program.Upholds, Upholds] at upholds ⊢
      obtain ⟨middle, every, settled⟩ := upholds
      obtain ⟨made, fits'⟩ := each.upholds leads every before
      exact ⟨⟨middle, made, settled⟩, fits'⟩

theorem CarriedToEach.upholds {good : Outcome → Prop} {programs : List Program}
    {world after : World σ} {processes : List Process}
    (each : CarriedToEach application programs world processes after) (leads : after.Leads final)
    (upholds : Program.UpholdEach final.account fits good programs) (before : world.Fits fits) :
    UpholdEach final fits good processes ∧ after.Fits fits := by
  match each with
  | .nil _ =>
      simp only [UpholdEach, true_and]
      exact before
  | .cons head _ rest =>
      simp only [Program.UpholdEach, UpholdEach] at upholds ⊢
      obtain ⟨here, fits'⟩ := head.upholds (rest.leads.trans leads) upholds.1 before
      obtain ⟨there, fits''⟩ := rest.upholds leads upholds.2 fits'
      exact ⟨⟨here, there⟩, fits''⟩

theorem BrokenBy.upholds {good : Outcome → Prop} {programs : List Program} {world after : World σ}
    {failure : Failure} (broken : BrokenBy application programs world failure after)
    (leads : after.Leads final) (upholds : Program.UpholdEach final.account fits good programs)
    (before : world.Fits fits) : good (.error failure) ∧ after.Fits fits := by
  match broken with
  | .here head _ =>
      simp only [Program.UpholdEach] at upholds
      obtain ⟨held, fits'⟩ := head.upholds leads upholds.1 before
      simp only [Upholds] at held
      exact ⟨held, fits'⟩
  | .later head _ rest =>
      simp only [Program.UpholdEach] at upholds
      obtain ⟨_, fits'⟩ := head.upholds (rest.leads.trans leads) upholds.1 before
      exact rest.upholds leads upholds.2 fits'

end

mutual

theorem upholds_launch (application : Application σ) (final : World σ) (good : Outcome → Prop)
    (process : Process) (world : World σ)
    (leads : (launch application process world).2.Leads final)
    (upholds : process.Upholds final fits good) :
    (launch application process world).1.Upholds final fits good := by
  match process with
  | finished outcome => simpa only [launch, Upholds] using upholds
  | waiting slots next =>
      simp only [launch, Upholds] at leads upholds ⊢
      exact fun result gets => upholds result
        (allGet_of_forall₂ final (gets_of_launchSlots application final slots world leads) result gets)
  | joining children next =>
      simp only [launch, Upholds] at leads upholds ⊢
      obtain ⟨middle, each, settled⟩ := upholds
      exact ⟨middle, upholds_launchAll application final middle children world leads each, settled⟩

theorem upholds_launchAll (application : Application σ) (final : World σ) (good : Outcome → Prop)
    (processes : List Process) (world : World σ)
    (leads : (launchAll application processes world).2.Leads final)
    (upholds : UpholdEach final fits good processes) :
    UpholdEach final fits good (launchAll application processes world).1 := by
  match processes with
  | [] => simp only [launchAll, UpholdEach]
  | process :: rest =>
      simp only [launchAll, UpholdEach] at leads upholds ⊢
      have middle := leads_launchAll application rest (launch application process world).2
      exact ⟨upholds_launch application final good process world (middle.trans leads) upholds.1,
        upholds_launchAll application final good rest _ leads upholds.2⟩

end

theorem upholds_begin (application : Application σ) (final : World σ) (good : Outcome → Prop)
    (program : Program) (world : World σ)
    (leads : (begin application program world).2.Leads final)
    (upholds : program.Upholds final.account fits good) (before : world.Fits fits) :
    (begin application program world).1.Upholds final fits good
      ∧ (begin application program world).2.Fits fits := by
  obtain ⟨held, fits'⟩ := (carriedTo_start application program world).upholds
    ((leads_launch application _ _).trans leads) upholds before
  refine ⟨upholds_launch application final good _ _ leads held, ?_⟩
  rw [begin, World.Fits, errors_launch]
  exact fits'

mutual

theorem ResumedTo.upholds {good : Outcome → Prop} {waiter : Nat} {reply : Reply}
    {process process' : Process} {world after : World σ}
    (resumed : ResumedTo application waiter reply process world process' after)
    (leads : after.Leads final) (delivered : final.Saw (.delivered waiter reply))
    (upholds : process.Upholds final fits good) (before : world.Fits fits) :
    process'.Upholds final fits good ∧ after.Fits fits := by
  match resumed with
  | .woken found answered =>
      simp only [Upholds] at upholds
      exact upholds_begin application final good _ world leads
        (upholds _ (answered.allGet found delivered)) before
  | .filled found same _ =>
      subst same
      simp only [Upholds] at upholds ⊢
      exact ⟨fun result gets => upholds result (allGet_of_fill delivered gets), before⟩
  | .settled outcomes one =>
      simp only [Upholds] at upholds
      obtain ⟨middle, each, settled⟩ := upholds
      obtain ⟨each', fits'⟩ := one.upholds ((leads_begin application _ _).trans leads) delivered each
        before
      exact upholds_begin application final good _ _ leads
        (settled _ ((upholdEach_finished final outcomes).1 each')) fits'
  | .join one _ =>
      simp only [Upholds] at upholds ⊢
      obtain ⟨middle, each, settled⟩ := upholds
      obtain ⟨each', fits'⟩ := one.upholds leads delivered each before
      exact ⟨⟨middle, each', settled⟩, fits'⟩

theorem OneResumedTo.upholds {good : Outcome → Prop} {waiter : Nat} {reply : Reply}
    {processes processes' : List Process} {world after : World σ}
    (resumed : OneResumedTo application waiter reply processes world processes' after)
    (leads : after.Leads final) (delivered : final.Saw (.delivered waiter reply))
    (upholds : UpholdEach final fits good processes) (before : world.Fits fits) :
    UpholdEach final fits good processes' ∧ after.Fits fits := by
  match resumed with
  | .here _ one =>
      simp only [UpholdEach] at upholds ⊢
      obtain ⟨head, fits'⟩ := one.upholds leads delivered upholds.1 before
      exact ⟨⟨head, upholds.2⟩, fits'⟩
  | .later _ _ one =>
      simp only [UpholdEach] at upholds ⊢
      obtain ⟨tail, fits'⟩ := one.upholds leads delivered upholds.2 before
      exact ⟨⟨upholds.1, tail⟩, fits'⟩

end

/-- A run that never stalls comes to a good outcome, and every error that it records fits. -/
theorem upholds_run (application : Application σ) (final : World σ) (good : Outcome → Prop)
    (process : Process) (world : World σ) (alive : Alive process world)
    (leads : (run application process world).2.Leads final)
    (upholds : process.Upholds final fits good) (before : world.Fits fits) :
    good (run application process world).1 ∧ (run application process world).2.Fits fits := by
  have fired : ∀ timer (world : World σ), world.Fits fits →
      (world.fire application timer).2.Fits fits := by
    intro timer world before
    rw [World.Fits, World.errors_fire]
    exact before
  fun_induction run application process world with
  | case1 world outcome =>
      simp only [Upholds] at upholds
      exact ⟨upholds, before⟩
  | case2 world process unfinished nothing =>
      exact absurd nothing (exists_earliest alive unfinished)
  | case3 world process unfinished timer found ignored ih =>
      exact ih (alive_of_ignored application timer _ alive ignored) leads upholds
        (fired timer world before)
  | case4 world process unfinished timer found after later resumed ih =>
      have step := resumedTo_of_resume application _ _ process _ _ resumed
      have leads' := (leads_run application after later).trans leads
      have delivered := (step.leads.trans leads').saw (World.saw_fire application timer world)
      obtain ⟨upholds', fits'⟩ := step.upholds leads' delivered upholds (fired timer world before)
      exact ih (alive_of_resumed application timer _ alive _ resumed) leads upholds' fits'

end Process

/-- What is carried out comes to a good outcome and records only errors that fit, if its program
upholds it. -/
theorem Request.upholds_of_carryOut {σ : Type} {fits : ResponseError → Prop}
    {good : Outcome → Prop} (application : Application σ) (synchronous : Bool) (program : Program)
    (world : World σ)
    (upholds : program.Upholds (carryOut application synchronous program world).world.account fits
      good)
    (before : world.Fits fits) :
    ∃ awaited outcome,
      carryOut application synchronous program world
          = respond synchronous awaited outcome (carryOut application synchronous program world).world
        ∧ good outcome ∧ (carryOut application synchronous program world).world.Fits fits := by
  have alive := Process.alive_begin application program world
  unfold carryOut at upholds ⊢
  split at upholds
  · next outcome after begun =>
      simp only [respond_world] at upholds ⊢
      obtain ⟨held, fits'⟩ := Process.upholds_begin application after good program world
        (by rw [begun]; exact .refl after) upholds before
      rw [begun] at held fits'
      simp only [Process.Upholds] at held
      exact ⟨false, outcome, rfl, held, fits'⟩
  · next process after unfinished begun =>
      simp only [respond_world] at upholds ⊢
      have leads := Process.leads_run application process after
      obtain ⟨held, fits'⟩ := Process.upholds_begin application _ good program world
        (by rw [begun]; exact leads) upholds before
      rw [begun] at held fits' alive
      obtain ⟨fine, fits''⟩ := Process.upholds_run application _ good process after alive (.refl _)
        held fits'
      exact ⟨true, _, rfl, fine, fits''⟩

end GraphQL
