import GraphQL.Proofs.Moments

/-!
Worlds in which programs go alike. A relation between worlds that every single step keeps is kept by
whole runs. Two relations of this kind are used: a world and the same world with a longer past, and
worlds that are one and have an invariant.
-/

namespace GraphQL

namespace World

variable {σ : Type}

/-- Results that are the same, in worlds that are related. -/
def Alike {α : Type} (related : World σ → World σ → Prop) (left right : α × World σ) : Prop :=
  left.1 = right.1 ∧ related left.2 right.2

/-- Each single step has the same result in related worlds, and leads to related worlds. -/
structure Simulation (application : Application σ) (related : World σ → World σ → Prop) :
    Prop where
  ask : ∀ {world other}, related world other → ∀ asked,
    Alike related (world.ask application asked) (other.ask application asked)
  drain : ∀ {world other}, related world other → ∀ handle,
    Alike related (world.drain application handle) (other.drain application handle)
  perform : ∀ {world other}, related world other → ∀ effect,
    related (world.perform effect) (other.perform effect)
  consult : ∀ {world other}, related world other → ∀ key, world.consult key = other.consult key
  launch : ∀ {world other}, related world other → ∀ ticket,
    Alike related (world.launch application ticket) (other.launch application ticket)
  timers : ∀ {world other}, related world other → world.timers = other.timers
  fire : ∀ {world other}, related world other → ∀ timer ∈ world.timers,
    Alike related (world.fire application timer) (other.fire application timer)

end World

namespace Process

open World

variable {σ : Type} {application : Application σ} {related : World σ → World σ → Prop}
  {world other : World σ}

mutual

theorem alike_start (simulation : Simulation application related) (program : Program)
    (world other : World σ) (alike : related world other) :
    Alike related (start application program world) (start application program other) := by
  match program with
  | .done outcome =>
      simp only [start]
      exact ⟨rfl, alike⟩
  | .call asked next =>
      obtain ⟨same, later⟩ := simulation.ask alike asked
      simp only [start, ← same]
      exact alike_start simulation (next _) _ _ later
  | .perform effect next =>
      simp only [start]
      exact alike_start simulation next _ _ (simulation.perform alike effect)
  | .consult key next =>
      simp only [start, ← simulation.consult alike key]
      exact alike_start simulation (next _) _ _ alike
  | .drain handle next =>
      obtain ⟨same, later⟩ := simulation.drain alike handle
      simp only [start, ← same]
      exact alike_start simulation (next _ _) _ _ later
  | .wait [] next =>
      simp only [start]
      exact alike_start simulation (next _) _ _ alike
  | .wait (ticket :: tickets) next =>
      simp only [start]
      exact ⟨rfl, alike⟩
  | .join children next =>
      obtain ⟨same, later⟩ := alike_startAll simulation children world other alike
      simp only [start]
      generalize startAll application children world = left at same later
      generalize startAll application children other = right at same later
      obtain ⟨result, after⟩ := left
      obtain ⟨result', after'⟩ := right
      simp only at same
      subst same
      cases result with
      | error failure => exact alike_start simulation (next _) _ _ later
      | ok processes =>
          simp only
          split
          · exact alike_start simulation (next _) _ _ later
          · exact ⟨rfl, later⟩

theorem alike_startAll (simulation : Simulation application related) (programs : List Program)
    (world other : World σ) (alike : related world other) :
    Alike related (startAll application programs world) (startAll application programs other) := by
  match programs with
  | [] =>
      simp only [startAll]
      exact ⟨rfl, alike⟩
  | program :: rest =>
      obtain ⟨same, later⟩ := alike_start simulation program world other alike
      simp only [startAll, ← same]
      split
      · exact ⟨rfl, later⟩
      · obtain ⟨others, last⟩ := alike_startAll simulation rest _ _ later
        exact ⟨by rw [others], last⟩

end

theorem alike_launchSlots (simulation : Simulation application related) (slots : List Pending)
    (alike : related world other) :
    Alike related (launchSlots application slots world) (launchSlots application slots other) := by
  induction slots generalizing world other with
  | nil => exact ⟨rfl, alike⟩
  | cons slot rest ih =>
      cases slot with
      | ticket ticket =>
          obtain ⟨same, later⟩ := simulation.launch alike ticket
          obtain ⟨others, last⟩ := ih later
          simp only [launchSlots, same, others]
          exact ⟨rfl, last⟩
      | waiter waiter =>
          obtain ⟨others, last⟩ := ih alike
          simp only [launchSlots, others]
          exact ⟨rfl, last⟩
      | arrived value =>
          obtain ⟨others, last⟩ := ih alike
          simp only [launchSlots, others]
          exact ⟨rfl, last⟩

mutual

theorem alike_launch (simulation : Simulation application related) (process : Process)
    (world other : World σ) (alike : related world other) :
    Alike related (launch application process world) (launch application process other) := by
  match process with
  | finished outcome =>
      simp only [launch]
      exact ⟨rfl, alike⟩
  | waiting slots next =>
      obtain ⟨same, later⟩ := alike_launchSlots simulation slots alike
      simp only [launch, same]
      exact ⟨rfl, later⟩
  | joining children next =>
      obtain ⟨same, later⟩ := alike_launchAll simulation children world other alike
      simp only [launch, same]
      exact ⟨rfl, later⟩

theorem alike_launchAll (simulation : Simulation application related) (processes : List Process)
    (world other : World σ) (alike : related world other) :
    Alike related (launchAll application processes world)
      (launchAll application processes other) := by
  match processes with
  | [] =>
      simp only [launchAll]
      exact ⟨rfl, alike⟩
  | process :: rest =>
      obtain ⟨same, later⟩ := alike_launch simulation process world other alike
      obtain ⟨others, last⟩ := alike_launchAll simulation rest _ _ later
      simp only [launchAll, same, others]
      exact ⟨rfl, last⟩

end

theorem alike_begin (simulation : Simulation application related) (program : Program)
    (alike : related world other) :
    Alike related (begin application program world) (begin application program other) := by
  obtain ⟨same, later⟩ := alike_start simulation program world other alike
  simp only [begin, ← same]
  exact alike_launch simulation _ _ _ later

mutual

theorem alike_resume (simulation : Simulation application related) (waiter : Nat) (reply : Reply)
    (process : Process) (world other : World σ) (alike : related world other) :
    Option.Rel (Alike related) (resume application waiter reply process world)
      (resume application waiter reply process other) := by
  match process with
  | finished _ =>
      simp only [resume]
      exact .none
  | waiting slots next =>
      simp only [resume]
      split
      · cases reply with
        | error failure => exact .some (alike_begin simulation _ alike)
        | ok value =>
            simp only
            split
            · exact .some (alike_begin simulation _ alike)
            · exact .some ⟨rfl, alike⟩
      · exact .none
  | joining children next =>
      have each := alike_resumeAny simulation waiter reply children world other alike
      simp only [resume]
      generalize resumeAny application waiter reply children world = left at each
      generalize resumeAny application waiter reply children other = right at each
      cases each with
      | none => exact .none
      | some later =>
          rename_i left right
          obtain ⟨children', after⟩ := left
          obtain ⟨same, later⟩ := later
          simp only at same
          subst same
          simp only
          split
          · exact .some (alike_begin simulation _ later)
          · exact .some ⟨rfl, later⟩

theorem alike_resumeAny (simulation : Simulation application related) (waiter : Nat)
    (reply : Reply) (processes : List Process) (world other : World σ)
    (alike : related world other) :
    Option.Rel (Alike related) (resumeAny application waiter reply processes world)
      (resumeAny application waiter reply processes other) := by
  match processes with
  | [] =>
      simp only [resumeAny]
      exact .none
  | process :: rest =>
      have here := alike_resume simulation waiter reply process world other alike
      have others := alike_resumeAny simulation waiter reply rest world other alike
      simp only [resumeAny]
      generalize resume application waiter reply process world = left at here
      generalize resume application waiter reply process other = right at here
      cases here with
      | some later => exact .some ⟨by rw [later.1], later.2⟩
      | none =>
          generalize resumeAny application waiter reply rest world = left at others
          generalize resumeAny application waiter reply rest other = right at others
          cases others with
          | none => exact .none
          | some later => exact .some ⟨by rw [later.1], later.2⟩

end

theorem alike_wake (simulation : Simulation application related) (timer : Timer)
    (process : Process) (alike : related world other) (pending : timer ∈ world.timers) :
    Alike related (wake application timer process world)
      (wake application timer process other) := by
  obtain ⟨same, fired⟩ := simulation.fire alike timer pending
  simp only [wake, ← same]
  have resumed := alike_resume simulation timer.waiter (world.fire application timer).1 process _ _
    fired
  generalize resume application timer.waiter (world.fire application timer).1 process
    (world.fire application timer).2 = left at resumed
  generalize resume application timer.waiter (world.fire application timer).1 process
    (other.fire application timer).2 = right at resumed
  cases resumed with
  | none => exact ⟨rfl, fired⟩
  | some later => exact later

theorem alike_step? (simulation : Simulation application related) {process : Process}
    (alike : related world other) {after : Process × World σ}
    (step : step? application process world = some after) :
    ∃ later, step? application process other = some (after.1, later) ∧ related after.2 later := by
  have unfinished : ∀ outcome, process ≠ finished outcome := by
    rintro outcome rfl
    cases step
  rw [step?_of_unfinished unfinished] at step
  obtain ⟨timer, found, rfl⟩ := Option.map_eq_some_iff.1 step
  obtain ⟨same, later⟩ := alike_wake simulation timer process alike (earliest_mem found)
  rw [simulation.timers alike] at found
  refine ⟨(process.wake application timer other).2, ?_, later⟩
  rw [step?_of_unfinished unfinished, found, Option.map_some, same]

theorem alike_run (simulation : Simulation application related) (process : Process)
    (alike : related world other) :
    Alike related (run application process world) (run application process other) := by
  fun_induction run application process world generalizing other with
  | case1 world outcome =>
      rw [run]
      exact ⟨rfl, alike⟩
  | case2 world process unfinished nothing =>
      rw [run_eq, step?_of_unfinished unfinished, ← simulation.timers alike, nothing]
      exact ⟨(ending_of_unfinished unfinished).symm, alike⟩
  | case3 world process unfinished timer found ignored ih =>
      obtain ⟨later, step, alike⟩ := alike_step? simulation alike
        (step?_of_ignored unfinished found ignored)
      rw [run_eq application process other, step]
      exact ih alike
  | case4 world process unfinished timer found after later resumed ih =>
      obtain ⟨later, step, alike⟩ := alike_step? simulation alike
        (step?_of_resumed unfinished found resumed)
      rw [run_eq application process other, step]
      exact ih alike

/-- What is carried out to its end in one of two related worlds is carried out alike in the other. -/
theorem alike_complete (simulation : Simulation application related) (program : Program)
    (alike : related world other) :
    Alike related (complete application program world) (complete application program other) := by
  obtain ⟨same, later⟩ := alike_begin simulation program alike
  rw [complete, complete, ← same]
  exact alike_run simulation _ later

end Process

namespace World

variable {σ : Type}

/-- A world with a longer past. -/
def onto (past : List (Nat × Event)) (world : World σ) : World σ :=
  { world with past := world.past ++ past }

theorem onto_record (past : List (Nat × Event)) (world : World σ) (error : ResponseError) :
    (world.onto past).record error = (world.record error).onto past := by
  have errors : (world.onto past).errors = world.errors := rfl
  rw [record, record, errors]
  split <;> rfl

theorem onto_close (past : List (Nat × Event)) (world : World σ) (ticket : Nat) :
    (world.onto past).close ticket = (world.close ticket).onto past := by
  unfold close status? onto
  simp only
  split <;> rfl

theorem onto_closeAll (past : List (Nat × Event)) (tickets : List Nat) (world : World σ) :
    tickets.foldl close (world.onto past) = (tickets.foldl close world).onto past := by
  induction tickets generalizing world with
  | nil => rfl
  | cons ticket rest ih => rw [List.foldl_cons, List.foldl_cons, onto_close, ih]

/-- What happened before makes no difference to what happens. -/
theorem simulation_onto (application : Application σ) (past : List (Nat × Event)) :
    Simulation application fun world other => other = world.onto past where
  ask := by
    rintro world _ rfl asked
    exact ⟨rfl, rfl⟩
  drain := by
    rintro world _ rfl handle
    exact ⟨rfl, rfl⟩
  perform := by
    rintro world _ rfl effect
    cases effect with
    | resolving path => rfl
    | resolved path value => rfl
    | listed path items => rfl
    | record error => exact onto_record past world error
    | close tickets => exact onto_closeAll past tickets world
    | remember key fields => rfl
  consult := by
    rintro world _ rfl key
    rfl
  launch := by
    rintro world _ rfl ticket
    have status : (world.onto past).status? ticket = world.status? ticket := rfl
    refine ⟨rfl, ?_⟩
    unfold launch
    simp only [status]
    split <;> rfl
  timers := by
    rintro world _ rfl
    rfl
  fire := by
    rintro world _ rfl timer _
    unfold fire
    cases timer.wake with
    | finish ticket => exact ⟨rfl, rfl⟩
    | refuse fault => exact ⟨rfl, rfl⟩

/-- What is carried out in a world is carried out in the same way after a longer past. -/
theorem complete_onto (application : Application σ) (program : Program) (world : World σ)
    (past : List (Nat × Event)) :
    Process.complete application program (world.onto past)
      = ((Process.complete application program world).1,
        (Process.complete application program world).2.onto past) := by
  have longer : (fun world other : World σ => other = world.onto past) world (world.onto past) := rfl
  obtain ⟨same, later⟩ := Process.alike_complete (simulation_onto application past) program longer
  rw [same, ← later]

/-- A property of worlds that each single step keeps. -/
structure Invariant (application : Application σ) (holds : World σ → Prop) : Prop where
  ask : ∀ {world}, holds world → ∀ asked, holds (world.ask application asked).2
  drain : ∀ {world}, holds world → ∀ handle, holds (world.drain application handle).2
  perform : ∀ {world}, holds world → ∀ effect, holds (world.perform effect)
  launch : ∀ {world}, holds world → ∀ ticket, holds (world.launch application ticket).2
  fire : ∀ {world}, holds world → ∀ timer ∈ world.timers, holds (world.fire application timer).2

theorem Invariant.simulation {application : Application σ} {holds : World σ → Prop}
    (invariant : Invariant application holds) :
    Simulation application fun world other => other = world ∧ holds world where
  ask := by
    rintro world _ ⟨rfl, held⟩ asked
    exact ⟨rfl, rfl, invariant.ask held asked⟩
  drain := by
    rintro world _ ⟨rfl, held⟩ handle
    exact ⟨rfl, rfl, invariant.drain held handle⟩
  perform := by
    rintro world _ ⟨rfl, held⟩ effect
    exact ⟨rfl, invariant.perform held effect⟩
  consult := by
    rintro world _ ⟨rfl, _⟩ key
    rfl
  launch := by
    rintro world _ ⟨rfl, held⟩ ticket
    exact ⟨rfl, rfl, invariant.launch held ticket⟩
  timers := by
    rintro world _ ⟨rfl, _⟩
    rfl
  fire := by
    rintro world _ ⟨rfl, held⟩ timer pending
    exact ⟨rfl, rfl, invariant.fire held timer pending⟩

theorem Invariant.complete {application : Application σ} {holds : World σ → Prop}
    (invariant : Invariant application holds) (program : Program) {world : World σ}
    (held : holds world) : holds (Process.complete application program world).2 :=
  (Process.alike_complete invariant.simulation program ⟨rfl, held⟩).2.2

end World

/-- The events that tell who waits. -/
def Event.isWait : Event → Bool
  | .launched .. | .delivered .. => true
  | _ => false

namespace World

variable {σ : Type}

/-- Whoever started to wait has a timer or got a reply, and nobody else does. -/
structure Accounted (world : World σ) : Prop where
  launched : ∀ waiter ticket, world.Saw (.launched waiter ticket) →
    (∃ timer ∈ world.timers, timer.waiter = waiter) ∨ ∃ reply, world.Saw (.delivered waiter reply)
  delivered : ∀ waiter reply, world.Saw (.delivered waiter reply) →
    ∃ ticket, world.Saw (.launched waiter ticket)
  timed : ∀ timer ∈ world.timers, ∃ ticket, world.Saw (.launched timer.waiter ticket)

theorem accounted_of_empty {world : World σ} (past : world.past = []) (idle : world.timers = []) :
    world.Accounted := by
  have nothing : ∀ event, ¬ world.Saw event := by
    rintro event ⟨time, member⟩
    rw [past] at member
    cases member
  refine ⟨fun waiter ticket saw => absurd saw (nothing _),
    fun waiter reply saw => absurd saw (nothing _), fun timer member => ?_⟩
  rw [idle] at member
  cases member

/-- Other events leave it open who waits. -/
theorem Accounted.of_waits {world after : World σ} (accounted : world.Accounted)
    (timers : after.timers = world.timers)
    (waits : ∀ event, event.isWait = true → (after.Saw event ↔ world.Saw event)) :
    after.Accounted := by
  refine ⟨fun waiter ticket saw => ?_, fun waiter reply saw => ?_, fun timer member => ?_⟩
  · obtain timed | ⟨reply, got⟩ := accounted.launched waiter ticket ((waits _ rfl).1 saw)
    · exact .inl (by rw [timers]; exact timed)
    · exact .inr ⟨reply, (waits _ rfl).2 got⟩
  · obtain ⟨ticket, before⟩ := accounted.delivered waiter reply ((waits _ rfl).1 saw)
    exact ⟨ticket, (waits _ rfl).2 before⟩
  · obtain ⟨ticket, before⟩ := accounted.timed timer (by rw [← timers]; exact member)
    exact ⟨ticket, (waits _ rfl).2 before⟩

theorem saw_cons_iff {world after : World σ} {time : Nat} {event : Event}
    (past : after.past = (time, event) :: world.past) (other : Event) :
    after.Saw other ↔ other = event ∨ world.Saw other := by
  unfold Saw
  rw [past]
  constructor
  · rintro ⟨moment, member⟩
    rcases List.mem_cons.1 member with same | before
    · cases same
      exact .inl rfl
    · exact .inr ⟨moment, before⟩
  · rintro (rfl | ⟨moment, before⟩)
    · exact ⟨time, List.mem_cons_self⟩
    · exact ⟨moment, List.mem_cons_of_mem _ before⟩

theorem Accounted.of_cons {world after : World σ} {time : Nat} {event : Event}
    (accounted : world.Accounted) (timers : after.timers = world.timers)
    (past : after.past = (time, event) :: world.past) (other : event.isWait = false) :
    after.Accounted := by
  refine accounted.of_waits timers fun seen waits => ?_
  rw [saw_cons_iff past]
  refine or_iff_right ?_
  rintro rfl
  rw [other] at waits
  cases waits

theorem accounted_closeAll (tickets : List Nat) {world : World σ} (accounted : world.Accounted) :
    (tickets.foldl close world).Accounted := by
  induction tickets generalizing world with
  | nil => exact accounted
  | cons ticket rest ih =>
      rw [List.foldl_cons]
      refine ih ?_
      unfold close
      split
      · exact accounted.of_cons rfl rfl rfl
      · exact accounted

theorem accounted_launch (application : Application σ) (ticket : Nat) {world : World σ}
    (accounted : world.Accounted) : (world.launch application ticket).2.Accounted := by
  obtain ⟨timer, same, timers, past⟩ := launch_timers application ticket world
  refine ⟨fun waiter other saw => ?_, fun waiter reply saw => ?_, fun other member => ?_⟩
  · rw [saw_cons_iff past] at saw
    rw [timers]
    obtain now | before := saw
    · cases now
      exact .inl ⟨timer, List.mem_append_right _ List.mem_cons_self, same⟩
    · obtain ⟨found, member, waits⟩ | ⟨reply, got⟩ := accounted.launched waiter other before
      · exact .inl ⟨found, List.mem_append_left _ member, waits⟩
      · exact .inr ⟨reply, (saw_cons_iff past _).2 (.inr got)⟩
  · rw [saw_cons_iff past] at saw
    obtain now | before := saw
    · cases now
    · obtain ⟨other, before⟩ := accounted.delivered waiter reply before
      exact ⟨other, (saw_cons_iff past _).2 (.inr before)⟩
  · rw [timers] at member
    rcases List.mem_append.1 member with before | new
    · obtain ⟨found, before⟩ := accounted.timed other before
      exact ⟨found, (saw_cons_iff past _).2 (.inr before)⟩
    · rw [List.mem_singleton.1 new, same]
      exact ⟨ticket, (saw_cons_iff past _).2 (.inl rfl)⟩

theorem saw_fire_iff (application : Application σ) (timer : Timer) (world : World σ)
    (event : Event) (waits : event.isWait = true) :
    (world.fire application timer).2.Saw event
      ↔ event = .delivered timer.waiter (world.fire application timer).1 ∨ world.Saw event := by
  unfold fire
  cases timer.wake with
  | refuse fault => exact saw_cons_iff rfl event
  | finish ticket =>
      rw [saw_cons_iff rfl, saw_cons_iff rfl]
      refine or_congr_right (or_iff_right ?_)
      rintro rfl
      cases waits

theorem accounted_fire (application : Application σ) (timer : Timer) {world : World σ}
    (accounted : world.Accounted) (pending : timer ∈ world.timers) :
    (world.fire application timer).2.Accounted := by
  have timers := (Process.waits_fire application timer world).2
  have got := saw_fire application timer world
  have leads := leads_fire application timer world
  refine ⟨fun waiter ticket saw => ?_, fun waiter reply saw => ?_, fun other member => ?_⟩
  · obtain other | launched := (saw_fire_iff application timer world _ rfl).1 saw
    · cases other
    · by_cases same : waiter = timer.waiter
      · rw [same]
        exact .inr ⟨_, got⟩
      · obtain ⟨found, member, waits⟩ | ⟨reply, before⟩ :=
          accounted.launched waiter ticket launched
        · refine .inl ⟨found, ?_, waits⟩
          rw [timers]
          exact List.mem_filter.2 ⟨member, by simpa [waits] using same⟩
        · exact .inr ⟨reply, leads.saw before⟩
  · obtain now | before := (saw_fire_iff application timer world _ rfl).1 saw
    · cases now
      obtain ⟨ticket, before⟩ := accounted.timed timer pending
      exact ⟨ticket, leads.saw before⟩
    · obtain ⟨ticket, before⟩ := accounted.delivered waiter reply before
      exact ⟨ticket, leads.saw before⟩
  · rw [timers] at member
    obtain ⟨ticket, before⟩ := accounted.timed other (List.mem_filter.1 member).1
    exact ⟨ticket, leads.saw before⟩

theorem invariant_accounted (application : Application σ) :
    Invariant application (Accounted (σ := σ)) where
  ask held asked := held.of_cons rfl rfl rfl
  drain held handle := held.of_cons rfl rfl rfl
  perform := by
    intro world held effect
    cases effect with
    | resolving path => exact held.of_cons rfl rfl rfl
    | resolved path value => exact held.of_cons rfl rfl rfl
    | listed path items => exact held.of_cons rfl rfl rfl
    | record error =>
        simp only [perform, record]
        split
        · exact held
        · exact held.of_cons rfl rfl rfl
    | close tickets => exact accounted_closeAll tickets held
    | remember key fields => exact held.of_waits rfl fun event _ => Iff.rfl
  launch held ticket := accounted_launch application ticket held
  fire held timer pending := accounted_fire application timer held pending

end World

end GraphQL
