import GraphQL.Proofs.Sequence

/-!
Nothing is left over. As long as no result fails that is awaited together with others, each timer
belongs to something that the process still waits for, so that none is left when it is finished.
-/

namespace GraphQL

namespace Process

variable {σ : Type}

mutual

/-- The waiters of a process, those that wait together as one group. -/
def groups : Process → List (List Nat)
  | finished _ => []
  | waiting slots _ => [slots.filterMap Pending.waiter?]
  | joining children _ => groupsOf children

def groupsOf : List Process → List (List Nat)
  | [] => []
  | process :: rest => process.groups ++ groupsOf rest

end

/-- Every timer belongs to a waiter of the process. -/
def Tended (process : Process) (world : World σ) : Prop :=
  ∀ timer ∈ world.timers, timer.waiter ∈ process.waiters

/-- Timers are only added for waiters. -/
def Charged (before after : World σ) (waiters : List Nat) : Prop :=
  ∀ timer ∈ after.timers, timer ∈ before.timers ∨ timer.waiter ∈ waiters

theorem charged_launched (application : Application σ) (ticket : Nat) (world : World σ) :
    Charged world (world.launch application ticket).2 [world.nextWaiter] := by
  obtain ⟨timer, same, timers, _⟩ := World.launch_timers application ticket world
  intro other member
  rw [timers] at member
  rcases List.mem_append.1 member with before | new
  · exact .inl before
  · rw [List.mem_singleton.1 new, same]
    exact .inr List.mem_cons_self

theorem charged_launchSlots (application : Application σ) (slots : List Pending)
    (world : World σ) :
    Charged world (launchSlots application slots world).2
      ((launchSlots application slots world).1.filterMap Pending.waiter?) := by
  induction slots generalizing world with
  | nil => exact fun timer member => .inl member
  | cons slot rest ih =>
      cases slot with
      | ticket ticket =>
          simp only [launchSlots, World.launch_fst]
          intro timer member
          rw [List.filterMap_cons, Pending.waiter?]
          rcases ih _ timer member with before | new
          · rcases charged_launched application ticket world timer before with before | here
            · exact .inl before
            · rw [List.mem_singleton.1 here]
              exact .inr List.mem_cons_self
          · exact .inr (List.mem_cons_of_mem _ new)
      | waiter waiter =>
          simp only [launchSlots]
          intro timer member
          rw [List.filterMap_cons, Pending.waiter?]
          exact (ih world timer member).imp_right (List.mem_cons_of_mem _)
      | arrived value =>
          simp only [launchSlots]
          exact fun timer member => ih world timer member

mutual

theorem charged_launch (application : Application σ) (process : Process) (world : World σ) :
    Charged world (launch application process world).2
      (launch application process world).1.waiters := by
  match process with
  | finished outcome =>
      simp only [launch]
      exact fun timer member => .inl member
  | waiting slots next =>
      simp only [launch, waiters]
      exact charged_launchSlots application slots world
  | joining children next =>
      simp only [launch, waiters]
      exact charged_launchAll application children world

theorem charged_launchAll (application : Application σ) (processes : List Process)
    (world : World σ) :
    Charged world (launchAll application processes world).2
      (waitersOf (launchAll application processes world).1) := by
  match processes with
  | [] =>
      simp only [launchAll]
      exact fun timer member => .inl member
  | process :: rest =>
      simp only [launchAll, waitersOf]
      intro timer member
      rcases charged_launchAll application rest _ timer member with before | new
      · exact (charged_launch application process world timer before).imp_right
          (List.mem_append_left _)
      · exact .inr (List.mem_append_right _ new)

end

theorem charged_begin (application : Application σ) (program : Program) (world : World σ) :
    Charged world (begin application program world).2 (begin application program world).1.waiters := by
  intro timer member
  have timers := (carriedTo_start application program world).idle.1
  rcases charged_launch application _ _ timer member with before | new
  · rw [timers] at before
    exact .inl before
  · exact .inr new

theorem waiters_of_arrivals? (slots : List Pending) (values : List Value)
    (arrived : arrivals? slots = some values) : slots.filterMap Pending.waiter? = [] := by
  induction slots generalizing values with
  | nil => rfl
  | cons slot rest ih =>
      cases slot with
      | ticket ticket => cases arrived
      | waiter waiter => cases arrived
      | arrived value =>
          rw [arrivals?_cons] at arrived
          obtain ⟨others, later, _⟩ := Option.map_eq_some_iff.1 arrived
          exact ih others later

theorem waitersOf_finished (outcomes : List Outcome) : waitersOf (outcomes.map finished) = [] := by
  induction outcomes with
  | nil => simp only [List.map_nil, waitersOf]
  | cons outcome rest ih => simp only [List.map_cons, waitersOf, waiters, List.nil_append, ih]

/-- Whoever waits beside a waiter that gets its reply goes on waiting, and timers are only added for
waiters. -/
structure Keeping (waiter : Nat) (old new : List Nat) (before after : World σ) : Prop where
  kept : ∀ other ∈ old, other ≠ waiter → other ∈ new
  charged : Charged before after new

/-- A waiter whose reply is a failure is the only one in its group. -/
def Lonely (waiter : Nat) (reply : Reply) (groups : List (List Nat)) : Prop :=
  ∀ failure, reply = .error failure → ∀ group ∈ groups, waiter ∈ group →
    ∀ other ∈ group, other = waiter

theorem Lonely.left {waiter : Nat} {reply : Reply} {front back : List (List Nat)}
    (lonely : Lonely waiter reply (front ++ back)) : Lonely waiter reply front :=
  fun failure failed group member => lonely failure failed group (List.mem_append_left _ member)

theorem Lonely.right {waiter : Nat} {reply : Reply} {front back : List (List Nat)}
    (lonely : Lonely waiter reply (front ++ back)) : Lonely waiter reply back :=
  fun failure failed group member => lonely failure failed group (List.mem_append_right _ member)

/-- Nobody else waits in a group, once one of its waiters has got its reply and it goes on. -/
theorem Answered.alone {waiter : Nat} {slots : List Pending} {reply : Reply}
    {result : Except Failure (List Value)} (answered : Answered waiter slots reply result)
    (found : slots.any (isWaiter waiter) = true)
    (lonely : Lonely waiter reply [slots.filterMap Pending.waiter?]) :
    ∀ other ∈ slots.filterMap Pending.waiter?, other = waiter := by
  intro other member
  cases answered with
  | refused failure =>
      exact lonely failure rfl _ List.mem_cons_self (mem_waiters_of_any waiter slots found) other
        member
  | arrived all =>
      have none_ := waiters_of_arrivals? _ _ all
      rw [waiters_fill, List.filter_eq_nil_iff] at none_
      simpa using none_ other member

variable {application : Application σ} {waiter : Nat} {reply : Reply}

mutual

theorem ResumedTo.keeping {process process' : Process} {world after : World σ}
    (resumed : ResumedTo application waiter reply process world process' after)
    (lonely : Lonely waiter reply process.groups) :
    Keeping waiter process.waiters process'.waiters world after := by
  match resumed with
  | .woken found answered =>
      simp only [groups, waiters] at lonely ⊢
      refine ⟨fun other member differs => ?_, charged_begin application _ world⟩
      exact absurd (answered.alone found lonely other member) differs
  | .filled _ _ _ =>
      simp only [waiters, waiters_fill]
      refine ⟨fun other member differs => ?_, fun timer member => .inl member⟩
      exact List.mem_filter.2 ⟨member, by simpa using differs⟩
  | .settled outcomes one =>
      simp only [groups, waiters] at lonely ⊢
      have keeping := one.keeping lonely
      rw [waitersOf_finished] at keeping
      refine ⟨fun other member differs => ?_, fun timer member => ?_⟩
      · cases keeping.kept other member differs
      · rcases charged_begin application _ _ timer member with before | new
        · exact (keeping.charged timer before).imp_right fun none_ => by cases none_
        · exact .inr new
  | .join one _ =>
      simp only [groups, waiters] at lonely ⊢
      exact one.keeping lonely

theorem OneResumedTo.keeping {processes processes' : List Process} {world after : World σ}
    (resumed : OneResumedTo application waiter reply processes world processes' after)
    (lonely : Lonely waiter reply (groupsOf processes)) :
    Keeping waiter (waitersOf processes) (waitersOf processes') world after := by
  match resumed with
  | .here rest one =>
      simp only [groupsOf, waitersOf] at lonely ⊢
      have keeping := one.keeping lonely.left
      refine ⟨fun other member differs => ?_, fun timer member => ?_⟩
      · rcases List.mem_append.1 member with here | there
        · exact List.mem_append_left _ (keeping.kept other here differs)
        · exact List.mem_append_right _ there
      · exact (keeping.charged timer member).imp_right (List.mem_append_left _)
  | .later process _ one =>
      simp only [groupsOf, waitersOf] at lonely ⊢
      have keeping := one.keeping lonely.right
      refine ⟨fun other member differs => ?_, fun timer member => ?_⟩
      · rcases List.mem_append.1 member with here | there
        · exact List.mem_append_left _ here
        · exact List.mem_append_right _ (keeping.kept other there differs)
      · exact (keeping.charged timer member).imp_right (List.mem_append_right _)

end

/-- In the states that a process passes through, a result that fails is awaited by itself. -/
def Steady (application : Application σ) (process : Process) (world : World σ) : Prop :=
  ∀ last final, Visits application process world last final →
    ∀ timer, World.earliest final.timers = some timer →
      Lonely timer.waiter (final.fire application timer).1 last.groups

theorem Steady.of_visits {application : Application σ} {process last : Process}
    {world final : World σ} (steady : Steady application process world)
    (visits : Visits application process world last final) : Steady application last final :=
  fun _ _ later => steady _ _ (visits.trans later)

/-- From one moment to the next every timer keeps its waiter. -/
theorem tended_step {application : Application σ} {process after : Process} {world later : World σ}
    (tended : Tended process world) (steady : Steady application process world)
    (step : step? application process world = some (after, later)) : Tended after later := by
  rw [step?_of_unfinished (unfinished_of_step step)] at step
  obtain ⟨timer, found, woken⟩ := Option.map_eq_some_iff.1 step
  have lonely := steady process world (.here _ _) timer found
  have timers := (waits_fire application timer world).2
  cases resumed : resume application timer.waiter (world.fire application timer).1 process
      (world.fire application timer).2 with
  | none =>
      have outside := not_mem_waiters_of_resume application timer.waiter _ process _ resumed
      exact absurd (tended timer (World.earliest_mem found)) outside
  | some next =>
      have same : next = (after, later) := by
        rw [wake, resumed] at woken
        exact woken
      subst same
      have keeping := (resumedTo_of_resume application _ _ process _ _ resumed).keeping lonely
      intro other member
      rcases keeping.charged other member with before | new
      · rw [timers] at before
        obtain ⟨inside, differs⟩ := List.mem_filter.1 before
        exact keeping.kept other.waiter (tended other inside) (by simpa using differs)
      · exact new

theorem tended_of_visits {application : Application σ} {process last : Process}
    {world final : World σ} (visits : Visits application process world last final)
    (tended : Tended process world) (steady : Steady application process world) :
    Tended last final := by
  induction visits with
  | here => exact tended
  | step moved rest ih =>
      exact ih (tended_step tended steady moved) (steady.of_visits (.step moved (.here _ _)))

/-- A program that is run to its end while nothing else is under way leaves nothing under way. -/
theorem idle_complete (application : Application σ) (program : Program) (world : World σ)
    (idle : world.timers = [])
    (steady : Steady application (begin application program world).1
      (begin application program world).2) :
    (complete application program world).2.timers = [] := by
  have tended : Tended (begin application program world).1 (begin application program world).2 := by
    intro timer member
    rcases charged_begin application program world timer member with before | new
    · rw [idle] at before
      cases before
    · exact new
  have visits := visits_run application _ _ (alive_begin application program world)
  have ended := tended_of_visits visits tended steady
  refine List.eq_nil_iff_forall_not_mem.2 fun timer member => ?_
  have waits := ended timer member
  simp only [waiters] at waits
  cases waits

end Process

end GraphQL
