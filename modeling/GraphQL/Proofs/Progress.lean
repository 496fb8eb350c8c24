import GraphQL.Proofs.Backward

/-!
No run gets stuck. Whatever a process waits for has a timer of its own, so as long as a process is not
finished there is a next due time, and the run ends with an outcome of the process itself.
-/

namespace GraphQL

namespace World

variable {σ : Type}

/-- Waiters are only added. -/
structure Adds (before after : World σ) : Prop where
  timers : before.timers ⊆ after.timers
  next : before.nextWaiter ≤ after.nextWaiter

theorem Adds.of_eq {before after : World σ} (timers : after.timers = before.timers)
    (next : after.nextWaiter = before.nextWaiter) : before.Adds after :=
  ⟨by rw [timers]; exact List.Subset.refl _, by omega⟩

theorem Adds.trans {first second third : World σ} (left : first.Adds second)
    (right : second.Adds third) : first.Adds third :=
  ⟨List.Subset.trans left.timers right.timers, Nat.le_trans left.next right.next⟩

/-- Waiters that were added between two worlds and have timers. -/
def Timed (before after : World σ) (waiters : List Nat) : Prop :=
  waiters.Nodup ∧ ∀ waiter ∈ waiters, before.nextWaiter ≤ waiter ∧ waiter < after.nextWaiter
    ∧ ∃ timer ∈ after.timers, timer.waiter = waiter

theorem timed_append {first second third : World σ} {left right : List Nat}
    (head : first.Timed second left) (tail : second.Timed third right)
    (adds : first.Adds second) (adds' : second.Adds third) : first.Timed third (left ++ right) := by
  constructor
  · rw [List.nodup_append]
    refine ⟨head.1, tail.1, ?_⟩
    rintro a inLeft b inRight rfl
    have upper := (head.2 a inLeft).2.1
    have lower := (tail.2 a inRight).1
    omega
  · intro waiter member
    rcases List.mem_append.1 member with inside | inside
    · rcases head.2 waiter inside with ⟨lower, upper, timer, kept, same⟩
      exact ⟨lower, Nat.lt_of_lt_of_le upper adds'.next, timer, adds'.timers kept, same⟩
    · rcases tail.2 waiter inside with ⟨lower, upper, timed⟩
      exact ⟨Nat.le_trans adds.next lower, upper, timed⟩

theorem waits_close (ticket : Nat) (world : World σ) :
    (world.close ticket).timers = world.timers
      ∧ (world.close ticket).nextWaiter = world.nextWaiter := by
  unfold close
  split <;> exact ⟨rfl, rfl⟩

theorem waits_closeAll (tickets : List Nat) (world : World σ) :
    (tickets.foldl close world).timers = world.timers
      ∧ (tickets.foldl close world).nextWaiter = world.nextWaiter := by
  induction tickets generalizing world with
  | nil => exact ⟨rfl, rfl⟩
  | cons ticket rest ih =>
      rw [List.foldl_cons, (ih _).1, (ih _).2]
      exact waits_close ticket world

theorem waits_perform (world : World σ) (effect : Effect) :
    (world.perform effect).timers = world.timers
      ∧ (world.perform effect).nextWaiter = world.nextWaiter := by
  cases effect with
  | resolving path => exact ⟨rfl, rfl⟩
  | resolved path value => exact ⟨rfl, rfl⟩
  | listed path items => exact ⟨rfl, rfl⟩
  | record error =>
      simp only [perform, record]
      split <;> exact ⟨rfl, rfl⟩
  | close tickets => exact waits_closeAll tickets world
  | remember key fields => exact ⟨rfl, rfl⟩

theorem earliest_ne_none {timers : List Timer} {timer : Timer} (member : timer ∈ timers) :
    earliest timers ≠ none := by
  intro nothing
  cases timers with
  | nil => cases member
  | cons first rest =>
      rw [earliest] at nothing
      split at nothing
      · split at nothing <;> cases nothing
      · cases nothing

theorem launch_fst (application : Application σ) (ticket : Nat) (world : World σ) :
    (world.launch application ticket).1 = world.nextWaiter := by
  unfold launch
  rfl

theorem launch_timers (application : Application σ) (ticket : Nat) (world : World σ) :
    ∃ timer : Timer, timer.waiter = world.nextWaiter
      ∧ (world.launch application ticket).2.timers = world.timers ++ [timer]
      ∧ (world.launch application ticket).2.past
        = (world.clock, .launched world.nextWaiter ticket) :: world.past := by
  unfold launch
  cases world.status? ticket with
  | none => exact ⟨⟨_, _, _⟩, rfl, rfl, rfl⟩
  | some status => cases status <;> exact ⟨⟨_, _, _⟩, rfl, rfl, rfl⟩

theorem timed_launch (application : Application σ) (ticket : Nat) (world : World σ) :
    world.Adds (world.launch application ticket).2
      ∧ world.Timed (world.launch application ticket).2 [world.nextWaiter] := by
  have next : (world.launch application ticket).2.nextWaiter = world.nextWaiter + 1 := by
    unfold launch
    cases world.status? ticket with
    | none => rfl
    | some status => cases status <;> rfl
  rcases launch_timers application ticket world with ⟨timer, waits, added, _⟩
  refine ⟨⟨?_, by omega⟩, by simp, ?_⟩
  · rw [added]
    exact List.subset_append_left _ _
  · intro waiter member
    rw [List.mem_singleton] at member
    refine ⟨by omega, by omega, timer, ?_, by omega⟩
    rw [added]
    exact List.mem_append_right _ List.mem_cons_self

end World

namespace Pending

def waiter? : Pending → Option Nat
  | .waiter number => some number
  | _ => none

def isLaunched : Pending → Bool
  | .ticket _ => false
  | _ => true

end Pending

namespace Process

variable {σ : Type}

mutual

/-- The waiters of a process that still wait. -/
def waiters : Process → List Nat
  | finished _ => []
  | waiting slots _ => slots.filterMap Pending.waiter?
  | joining children _ => waitersOf children

def waitersOf : List Process → List Nat
  | [] => []
  | process :: rest => process.waiters ++ waitersOf rest

end

mutual

/-- A process that is not finished still waits for something. -/
def Waits : Process → Prop
  | finished _ => True
  | waiting slots _ => 0 < openSlots slots
  | joining children _ => WaitEach children ∧ outcomes? children = none

def WaitEach : List Process → Prop
  | [] => True
  | process :: rest => process.Waits ∧ WaitEach rest

end

mutual

/-- The clocks of everything that a process waits for are started. -/
def Launched : Process → Prop
  | finished _ => True
  | waiting slots _ => slots.all Pending.isLaunched = true
  | joining children _ => LaunchedEach children

def LaunchedEach : List Process → Prop
  | [] => True
  | process :: rest => process.Launched ∧ LaunchedEach rest

end

theorem openSlots_tickets (tickets : List Nat) :
    openSlots (tickets.map .ticket) = tickets.length := by
  induction tickets with
  | nil => rfl
  | cons ticket rest ih =>
      simp only [List.map_cons, openSlots, isOpen, if_true, ih, List.length_cons]
      omega

section Started

variable {application : Application σ}

mutual

theorem CarriedTo.waits {program : Program} {world after : World σ} {process : Process}
    (carried : CarriedTo application program world process after) : process.Waits := by
  match carried with
  | .done _ _ => simp only [Waits]
  | .call _ rest => exact rest.waits
  | .perform _ rest => exact rest.waits
  | .consult _ rest => exact rest.waits
  | .drain _ rest => exact rest.waits
  | .unawaited rest => exact rest.waits
  | .wait ticket tickets _ _ =>
      simp only [Waits, openSlots_tickets, List.length_cons]
      omega
  | .broken _ _ rest => exact rest.waits
  | .settled _ _ rest => exact rest.waits
  | .join each pending =>
      simp only [Waits]
      exact ⟨each.waits, pending⟩

theorem CarriedToEach.waits {programs : List Program} {world after : World σ}
    {processes : List Process} (each : CarriedToEach application programs world processes after) :
    WaitEach processes := by
  match each with
  | .nil _ => simp only [WaitEach]
  | .cons head _ rest =>
      simp only [WaitEach]
      exact ⟨head.waits, rest.waits⟩

end

mutual

theorem CarriedTo.fresh {program : Program} {world after : World σ} {process : Process}
    (carried : CarriedTo application program world process after) : process.waiters = [] := by
  match carried with
  | .done _ _ => simp only [waiters]
  | .call _ rest => exact rest.fresh
  | .perform _ rest => exact rest.fresh
  | .consult _ rest => exact rest.fresh
  | .drain _ rest => exact rest.fresh
  | .unawaited rest => exact rest.fresh
  | .wait _ _ _ _ =>
      rw [waiters, List.filterMap_map]
      exact List.filterMap_eq_nil_iff.2 fun _ _ => rfl
  | .broken _ _ rest => exact rest.fresh
  | .settled _ _ rest => exact rest.fresh
  | .join each _ =>
      simp only [waiters]
      exact each.fresh

theorem CarriedToEach.fresh {programs : List Program} {world after : World σ}
    {processes : List Process} (each : CarriedToEach application programs world processes after) :
    waitersOf processes = [] := by
  match each with
  | .nil _ => simp only [waitersOf]
  | .cons head _ rest => simp only [waitersOf, head.fresh, rest.fresh, List.append_nil]

end

mutual

theorem CarriedTo.idle {program : Program} {world after : World σ} {process : Process}
    (carried : CarriedTo application program world process after) :
    after.timers = world.timers ∧ after.nextWaiter = world.nextWaiter := by
  match carried with
  | .done _ _ => exact ⟨rfl, rfl⟩
  | .call _ rest => exact rest.idle
  | .perform effect rest =>
      rw [rest.idle.1, rest.idle.2]
      exact world.waits_perform effect
  | .consult _ rest => exact rest.idle
  | .drain _ rest => exact rest.idle
  | .unawaited rest => exact rest.idle
  | .wait _ _ _ _ => exact ⟨rfl, rfl⟩
  | .broken _ broken rest =>
      rw [rest.idle.1, rest.idle.2]
      exact broken.idle
  | .settled _ each rest =>
      rw [rest.idle.1, rest.idle.2]
      exact each.idle
  | .join each _ => exact each.idle

theorem CarriedToEach.idle {programs : List Program} {world after : World σ}
    {processes : List Process} (each : CarriedToEach application programs world processes after) :
    after.timers = world.timers ∧ after.nextWaiter = world.nextWaiter := by
  match each with
  | .nil _ => exact ⟨rfl, rfl⟩
  | .cons head _ rest =>
      rw [rest.idle.1, rest.idle.2]
      exact head.idle

theorem BrokenBy.idle {programs : List Program} {world after : World σ} {failure : Failure}
    (broken : BrokenBy application programs world failure after) :
    after.timers = world.timers ∧ after.nextWaiter = world.nextWaiter := by
  match broken with
  | .here head _ => exact head.idle
  | .later head _ rest =>
      rw [rest.idle.1, rest.idle.2]
      exact head.idle

end

end Started

theorem openSlots_launchSlots (application : Application σ) (slots : List Pending)
    (world : World σ) : openSlots (launchSlots application slots world).1 = openSlots slots := by
  induction slots generalizing world with
  | nil => rfl
  | cons slot rest ih =>
      cases slot <;> simp only [launchSlots, openSlots, isOpen, ih]

theorem timed_launchSlots (application : Application σ) (slots : List Pending) (world : World σ)
    (fresh : slots.filterMap Pending.waiter? = []) :
    (launchSlots application slots world).1.all Pending.isLaunched = true
      ∧ world.Adds (launchSlots application slots world).2
      ∧ world.Timed (launchSlots application slots world).2
        ((launchSlots application slots world).1.filterMap Pending.waiter?) := by
  induction slots generalizing world with
  | nil => exact ⟨rfl, .of_eq rfl rfl, List.nodup_nil, fun _ member => by cases member⟩
  | cons slot rest ih =>
      cases slot with
      | ticket ticket =>
          simp only [launchSlots, List.all_cons, Pending.isLaunched, Bool.true_and,
            List.filterMap_cons, Pending.waiter?, World.launch_fst] at fresh ⊢
          rcases World.timed_launch application ticket world with ⟨adds, timed⟩
          rcases ih (world.launch application ticket).2 fresh with ⟨launched, adds', timed'⟩
          exact ⟨launched, adds.trans adds', World.timed_append timed timed' adds adds'⟩
      | waiter waiter => cases fresh
      | arrived value =>
          simp only [launchSlots, List.all_cons, Pending.isLaunched, Bool.true_and,
            List.filterMap_cons, Pending.waiter?] at fresh ⊢
          exact ih world fresh

theorem outcomes?_launchAll (application : Application σ) (processes : List Process)
    (world : World σ) (pending : outcomes? processes = none) :
    outcomes? (launchAll application processes world).1 = none := by
  induction processes generalizing world with
  | nil => cases pending
  | cons process rest ih =>
      cases process with
      | finished outcome =>
          simp only [outcomes?, Option.map_eq_none_iff] at pending
          simp only [launchAll, launch, outcomes?, Option.map_eq_none_iff]
          exact ih world pending
      | waiting slots next => simp only [launchAll, launch, outcomes?]
      | joining children next => simp only [launchAll, launch, outcomes?]

mutual

/-- Launching a fresh process gives everything that it waits for a timer. -/
theorem timed_launch (application : Application σ) (process : Process) (world : World σ)
    (waits : process.Waits) (fresh : process.waiters = []) :
    (launch application process world).1.Waits ∧ (launch application process world).1.Launched
      ∧ world.Adds (launch application process world).2
      ∧ world.Timed (launch application process world).2
        (launch application process world).1.waiters := by
  match process with
  | finished outcome =>
      simp only [launch, Waits, Launched, waiters, true_and]
      exact ⟨.of_eq rfl rfl, List.nodup_nil, fun _ member => by cases member⟩
  | waiting slots next =>
      simp only [launch, Waits, Launched, waiters, openSlots_launchSlots] at waits fresh ⊢
      exact ⟨waits, timed_launchSlots application slots world fresh⟩
  | joining children next =>
      simp only [launch, Waits, Launched, waiters] at waits fresh ⊢
      rcases timed_launchAll application children world waits.1 fresh with ⟨each, launched, timed⟩
      exact ⟨⟨each, outcomes?_launchAll application children world waits.2⟩, launched, timed⟩

theorem timed_launchAll (application : Application σ) (processes : List Process) (world : World σ)
    (waits : WaitEach processes) (fresh : waitersOf processes = []) :
    WaitEach (launchAll application processes world).1
      ∧ LaunchedEach (launchAll application processes world).1
      ∧ world.Adds (launchAll application processes world).2
      ∧ world.Timed (launchAll application processes world).2
        (waitersOf (launchAll application processes world).1) := by
  match processes with
  | [] =>
      simp only [launchAll, WaitEach, LaunchedEach, waitersOf, true_and]
      exact ⟨.of_eq rfl rfl, List.nodup_nil, fun _ member => by cases member⟩
  | process :: rest =>
      simp only [launchAll, WaitEach, LaunchedEach, waitersOf] at waits fresh ⊢
      rcases List.append_eq_nil_iff.1 fresh with ⟨freshHere, freshRest⟩
      rcases timed_launch application process world waits.1 freshHere with
        ⟨waitsHere, launchedHere, adds, timed⟩
      rcases timed_launchAll application rest (launch application process world).2 waits.2 freshRest
        with ⟨waitsRest, launchedRest, adds', timed'⟩
      exact ⟨⟨waitsHere, waitsRest⟩, ⟨launchedHere, launchedRest⟩, adds.trans adds',
        World.timed_append timed timed' adds adds'⟩

end

theorem timed_begin (application : Application σ) (program : Program) (world : World σ) :
    (begin application program world).1.Waits ∧ (begin application program world).1.Launched
      ∧ world.Adds (begin application program world).2
      ∧ world.Timed (begin application program world).2
        (begin application program world).1.waiters := by
  have carried := carriedTo_start application program world
  obtain ⟨timers, next⟩ := carried.idle
  rcases timed_launch application _ (start application program world).2 carried.waits carried.fresh
    with ⟨waits, launched, adds, timed⟩
  refine ⟨waits, launched, (World.Adds.of_eq timers next).trans adds, timed.1, ?_⟩
  intro waiter member
  rw [← next]
  exact timed.2 waiter member

/-- How the waiters of a process change when one of them gets its reply. -/
structure Renewed (waiter : Nat) (old new : List Nat) (before after : World σ) : Prop where
  inside : waiter ∈ old
  distinct : new.Nodup
  kept : ∀ other ∈ new, (other ∈ old ∧ other ≠ waiter) ∨ (before.nextWaiter ≤ other
    ∧ other < after.nextWaiter ∧ ∃ timer ∈ after.timers, timer.waiter = other)
  adds : before.Adds after

theorem Renewed.of_timed {waiter : Nat} {old new : List Nat} {before after : World σ}
    (inside : waiter ∈ old) (adds : before.Adds after) (timed : before.Timed after new) :
    Renewed waiter old new before after :=
  ⟨inside, timed.1, fun other member => .inr (timed.2 other member), adds⟩

/-- The waiters beside those that change stay as they are. -/
theorem Renewed.append {waiter : Nat} {old new : List Nat} {before after : World σ}
    (front back : List Nat) (renewed : Renewed waiter old new before after) (distinct : (front ++ old ++ back).Nodup)
    (bound : ∀ other ∈ front ++ old ++ back, other < before.nextWaiter) :
    Renewed waiter (front ++ old ++ back) (front ++ new ++ back) before after := by
  have apart : ∀ other ∈ front ++ back, other ≠ waiter ∧ other ∉ new := by
    intro other member
    have lower := bound other (by simp only [List.mem_append] at member ⊢; tauto)
    have outside : other ∉ old := by
      simp only [List.nodup_append, List.mem_append] at distinct member
      rcases distinct with ⟨⟨_, _, apartFront⟩, _, apartBack⟩
      intro inside
      rcases member with found | found
      · exact apartFront other found other inside rfl
      · exact apartBack other (.inr inside) other found rfl
    refine ⟨fun same => outside (same ▸ renewed.inside), fun inside => ?_⟩
    rcases renewed.kept other inside with ⟨found, _⟩ | ⟨upper, _⟩
    · exact outside found
    · omega
  refine ⟨?_, ?_, ?_, renewed.adds⟩
  · simp only [List.mem_append]
    exact .inl (.inr renewed.inside)
  · simp only [List.nodup_append, List.mem_append] at distinct apart ⊢
    rcases distinct with ⟨⟨frontDistinct, _, _⟩, backDistinct, apartBack⟩
    refine ⟨⟨frontDistinct, renewed.distinct, ?_⟩, backDistinct, ?_⟩
    · rintro a inFront b inNew rfl
      exact (apart a (.inl inFront)).2 inNew
    · rintro a (inFront | inNew) b inBack rfl
      · exact apartBack a (.inl inFront) a inBack rfl
      · exact (apart a (.inr inBack)).2 inNew
  · intro other member
    simp only [List.mem_append] at member apart ⊢
    rcases member with (inFront | inNew) | inBack
    · exact .inl ⟨.inl (.inl inFront), (apart other (.inl inFront)).1⟩
    · rcases renewed.kept other inNew with ⟨inside, differs⟩ | added
      · exact .inl ⟨.inl (.inr inside), differs⟩
      · exact .inr added
    · exact .inl ⟨.inr inBack, (apart other (.inr inBack)).1⟩

theorem mem_waiters_of_any (waiter : Nat) (slots : List Pending)
    (found : slots.any (isWaiter waiter) = true) : waiter ∈ slots.filterMap Pending.waiter? := by
  rcases List.any_eq_true.1 found with ⟨slot, member, waits⟩
  refine List.mem_filterMap.2 ⟨slot, member, ?_⟩
  cases slot with
  | waiter number =>
      simp only [isWaiter, decide_eq_true_eq] at waits
      rw [waits, Pending.waiter?]
  | ticket number => cases waits
  | arrived value => cases waits

theorem waiters_fill (waiter : Nat) (value : Value) (slots : List Pending) :
    (fill waiter value slots).filterMap Pending.waiter?
      = (slots.filterMap Pending.waiter?).filter (· != waiter) := by
  induction slots with
  | nil => rfl
  | cons slot rest ih =>
      rw [fill_cons, List.filterMap_cons, List.filterMap_cons]
      cases slot with
      | ticket number => simpa [isWaiter, Pending.waiter?] using ih
      | arrived other => simpa [isWaiter, Pending.waiter?] using ih
      | waiter number =>
          by_cases same : number = waiter
          · simpa [isWaiter, Pending.waiter?, same] using ih
          · simpa [isWaiter, Pending.waiter?, same] using ih

theorem launched_fill (waiter : Nat) (value : Value) (slots : List Pending)
    (launched : slots.all Pending.isLaunched = true) :
    (fill waiter value slots).all Pending.isLaunched = true := by
  simp only [fill, List.all_eq_true, List.mem_map] at launched ⊢
  rintro slot ⟨old, member, rfl⟩
  split
  · rfl
  · exact launched old member

theorem openSlots_pos_of_arrivals? (slots : List Pending) (pending : arrivals? slots = none) :
    0 < openSlots slots := by
  induction slots with
  | nil => cases pending
  | cons slot rest ih =>
      cases slot with
      | ticket number => simp only [openSlots, isOpen, if_true]; omega
      | waiter number => simp only [openSlots, isOpen, if_true]; omega
      | arrived value =>
          rw [arrivals?_cons, Option.map_eq_none_iff] at pending
          have below := ih pending
          simp only [openSlots]
          omega

theorem exists_open_waiter (slots : List Pending) (opened : 0 < openSlots slots)
    (launched : slots.all Pending.isLaunched = true) :
    ∃ waiter, waiter ∈ slots.filterMap Pending.waiter? := by
  induction slots with
  | nil => cases opened
  | cons slot rest ih =>
      rw [List.all_cons, Bool.and_eq_true] at launched
      cases slot with
      | ticket number => cases launched.1
      | waiter number => exact ⟨number, List.mem_cons_self⟩
      | arrived value =>
          simp only [openSlots, isOpen, Bool.false_eq_true, if_false, Nat.zero_add] at opened
          exact ih opened launched.2

section Resumed

variable {application : Application σ} {waiter : Nat} {reply : Reply}

mutual

theorem ResumedTo.renewed {process process' : Process} {world after : World σ}
    (resumed : ResumedTo application waiter reply process world process' after)
    (waits : process.Waits) (launched : process.Launched) (distinct : process.waiters.Nodup)
    (bound : ∀ other ∈ process.waiters, other < world.nextWaiter) :
    process'.Waits ∧ process'.Launched
      ∧ Renewed waiter process.waiters process'.waiters world after := by
  match resumed with
  | .woken found _ =>
      obtain ⟨waits', launched', adds, timed⟩ := timed_begin application _ world
      simp only [waiters]
      exact ⟨waits', launched', .of_timed (mem_waiters_of_any waiter _ found) adds timed⟩
  | .filled found _ pending =>
      simp only [waiters, Launched, Waits, waiters_fill] at distinct launched ⊢
      refine ⟨openSlots_pos_of_arrivals? _ pending, launched_fill waiter _ _ launched,
        mem_waiters_of_any waiter _ found, distinct.filter _, ?_, .of_eq rfl rfl⟩
      intro other member
      obtain ⟨kept, differs⟩ := List.mem_filter.1 member
      exact .inl ⟨kept, by simpa using differs⟩
  | .settled _ one =>
      simp only [waiters, Launched, Waits] at distinct launched waits bound ⊢
      obtain ⟨_, _, renewed⟩ := one.renewed waits.1 launched distinct bound
      obtain ⟨waits', launched', adds, timed⟩ := timed_begin application _ _
      refine ⟨waits', launched', renewed.inside, timed.1, ?_, renewed.adds.trans adds⟩
      intro other member
      obtain ⟨lower, rest⟩ := timed.2 other member
      exact .inr ⟨Nat.le_trans renewed.adds.next lower, rest⟩
  | .join one pending =>
      simp only [waiters, Launched, Waits] at distinct launched waits bound ⊢
      obtain ⟨waits', launched', renewed⟩ := one.renewed waits.1 launched distinct bound
      exact ⟨⟨waits', pending⟩, launched', renewed⟩

theorem OneResumedTo.renewed {processes processes' : List Process} {world after : World σ}
    (resumed : OneResumedTo application waiter reply processes world processes' after)
    (waits : WaitEach processes) (launched : LaunchedEach processes)
    (distinct : (waitersOf processes).Nodup)
    (bound : ∀ other ∈ waitersOf processes, other < world.nextWaiter) :
    WaitEach processes' ∧ LaunchedEach processes'
      ∧ Renewed waiter (waitersOf processes) (waitersOf processes') world after := by
  match resumed with
  | .here rest one =>
      simp only [waitersOf, LaunchedEach, WaitEach] at distinct launched waits bound ⊢
      obtain ⟨waits', launched', renewed⟩ := one.renewed waits.1 launched.1
        (List.nodup_append.1 distinct).1 fun other member => bound other (List.mem_append_left _ member)
      refine ⟨⟨waits', waits.2⟩, ⟨launched', launched.2⟩, ?_⟩
      exact renewed.append [] (waitersOf rest) distinct bound
  | .later process _ one =>
      simp only [waitersOf, LaunchedEach, WaitEach] at distinct launched waits bound ⊢
      obtain ⟨waits', launched', renewed⟩ := one.renewed waits.2 launched.2
        (List.nodup_append.1 distinct).2.1
        fun other member => bound other (List.mem_append_right _ member)
      refine ⟨⟨waits.1, waits'⟩, ⟨launched.1, launched'⟩, ?_⟩
      have whole := renewed.append process.waiters [] (by simpa using distinct) (by simpa using bound)
      simpa using whole

end

end Resumed

mutual

theorem not_mem_waiters_of_resume (application : Application σ) (waiter : Nat) (reply : Reply)
    (process : Process) (world : World σ)
    (ignored : resume application waiter reply process world = none) :
    waiter ∉ process.waiters := by
  match process with
  | finished _ => simp only [waiters, List.not_mem_nil, not_false_eq_true]
  | waiting slots next =>
      simp only [resume] at ignored
      simp only [waiters]
      intro member
      rcases List.mem_filterMap.1 member with ⟨slot, inside, same⟩
      have found : slots.any (isWaiter waiter) = true := by
        refine List.any_eq_true.2 ⟨slot, inside, ?_⟩
        cases slot with
        | waiter number =>
            simp only [Pending.waiter?, Option.some.injEq] at same
            simp only [isWaiter, same, decide_true]
        | ticket number => cases same
        | arrived value => cases same
      rw [if_pos found] at ignored
      cases reply with
      | error failure => cases ignored
      | ok value =>
          simp only at ignored
          split at ignored <;> cases ignored
  | joining children next =>
      simp only [resume] at ignored
      simp only [waiters]
      split at ignored
      · next missed => exact not_mem_waitersOf_of_resumeAny application waiter reply children world missed
      · split at ignored <;> cases ignored

theorem not_mem_waitersOf_of_resumeAny (application : Application σ) (waiter : Nat)
    (reply : Reply) (processes : List Process) (world : World σ)
    (ignored : resumeAny application waiter reply processes world = none) :
    waiter ∉ waitersOf processes := by
  match processes with
  | [] => simp only [waitersOf, List.not_mem_nil, not_false_eq_true]
  | process :: rest =>
      simp only [resumeAny] at ignored
      simp only [waitersOf, List.mem_append, not_or]
      split at ignored
      · cases ignored
      · next missed =>
          split at ignored
          · cases ignored
          · next missedRest =>
              exact ⟨not_mem_waiters_of_resume application waiter reply process world missed,
                not_mem_waitersOf_of_resumeAny application waiter reply rest world missedRest⟩

end

/-- A process whose waiters all have timers. -/
structure Alive (process : Process) (world : World σ) : Prop where
  waits : process.Waits
  launched : process.Launched
  distinct : process.waiters.Nodup
  timed : ∀ waiter ∈ process.waiters, waiter < world.nextWaiter
    ∧ ∃ timer ∈ world.timers, timer.waiter = waiter

theorem alive_begin (application : Application σ) (program : Program) (world : World σ) :
    Alive (begin application program world).1 (begin application program world).2 := by
  rcases timed_begin application program world with ⟨waits, launched, _, timed⟩
  exact ⟨waits, launched, timed.1, fun waiter member => (timed.2 waiter member).2⟩

mutual

theorem exists_waiter (process : Process) (waits : process.Waits) (launched : process.Launched)
    (unfinished : ∀ outcome, process ≠ finished outcome) : ∃ waiter, waiter ∈ process.waiters := by
  match process with
  | finished outcome => exact absurd rfl (unfinished outcome)
  | waiting slots next =>
      simp only [Waits, Launched, waiters] at waits launched ⊢
      exact exists_open_waiter slots waits launched
  | joining children next =>
      simp only [Waits, Launched, waiters] at waits launched ⊢
      exact exists_waiterOf children waits.1 launched waits.2

theorem exists_waiterOf (processes : List Process) (waits : WaitEach processes)
    (launched : LaunchedEach processes) (pending : outcomes? processes = none) :
    ∃ waiter, waiter ∈ waitersOf processes := by
  match processes with
  | [] => cases pending
  | finished outcome :: rest =>
      simp only [outcomes?, Option.map_eq_none_iff, WaitEach, LaunchedEach] at pending waits launched
      rcases exists_waiterOf rest waits.2 launched.2 pending with ⟨waiter, member⟩
      exact ⟨waiter, by simpa only [waitersOf, waiters, List.nil_append] using member⟩
  | waiting slots next :: rest =>
      simp only [WaitEach, LaunchedEach] at waits launched
      rcases exists_waiter (waiting slots next) waits.1 launched.1 (fun _ same => by cases same) with
        ⟨waiter, member⟩
      exact ⟨waiter, by simp only [waitersOf, List.mem_append]; exact .inl member⟩
  | joining children next :: rest =>
      simp only [WaitEach, LaunchedEach] at waits launched
      rcases exists_waiter (joining children next) waits.1 launched.1 (fun _ same => by cases same)
        with ⟨waiter, member⟩
      exact ⟨waiter, by simp only [waitersOf, List.mem_append]; exact .inl member⟩

end

theorem waits_fire (application : Application σ) (timer : Timer) (world : World σ) :
    (world.fire application timer).2.nextWaiter = world.nextWaiter
      ∧ (world.fire application timer).2.timers
        = world.timers.filter (·.waiter != timer.waiter) := by
  unfold World.fire
  cases timer.wake <;> exact ⟨rfl, rfl⟩

theorem timed_fire (application : Application σ) (timer : Timer) {process : Process}
    {world : World σ} (alive : Alive process world) (waiter : Nat)
    (member : waiter ∈ process.waiters) (differs : waiter ≠ timer.waiter) :
    waiter < (world.fire application timer).2.nextWaiter
      ∧ ∃ other ∈ (world.fire application timer).2.timers, other.waiter = waiter := by
  rcases alive.timed waiter member with ⟨bound, other, kept, same⟩
  rw [(waits_fire application timer world).1, (waits_fire application timer world).2]
  refine ⟨bound, other, List.mem_filter.2 ⟨kept, ?_⟩, same⟩
  simpa [same] using differs

theorem alive_of_ignored (application : Application σ) (timer : Timer) (reply : Reply)
    {process : Process} {world : World σ} (alive : Alive process world)
    (ignored : resume application timer.waiter reply process (world.fire application timer).2
      = none) : Alive process (world.fire application timer).2 := by
  have outside := not_mem_waiters_of_resume application timer.waiter reply process _ ignored
  refine ⟨alive.waits, alive.launched, alive.distinct, fun waiter member => ?_⟩
  exact timed_fire application timer alive waiter member fun same => outside (same ▸ member)

theorem alive_of_resumed (application : Application σ) (timer : Timer) (reply : Reply)
    {process : Process} {world : World σ} (alive : Alive process world)
    (after : Process × World σ)
    (resumed : resume application timer.waiter reply process (world.fire application timer).2
      = some after) : Alive after.1 after.2 := by
  have bound : ∀ other ∈ process.waiters,
      other < (world.fire application timer).2.nextWaiter := by
    intro other member
    rw [(waits_fire application timer world).1]
    exact (alive.timed other member).1
  obtain ⟨waits, launched, renewed⟩ := (resumedTo_of_resume application timer.waiter reply process _ _
    resumed).renewed alive.waits alive.launched alive.distinct bound
  refine ⟨waits, launched, renewed.distinct, fun waiter member => ?_⟩
  rcases renewed.kept waiter member with ⟨inside, differs⟩ | ⟨_, upper, timed⟩
  · rcases timed_fire application timer alive waiter inside differs with ⟨below, other, kept, same⟩
    exact ⟨Nat.lt_of_lt_of_le below renewed.adds.next, other, renewed.adds.timers kept, same⟩
  · exact ⟨upper, timed⟩

theorem exists_earliest {process : Process} {world : World σ} (alive : Alive process world)
    (unfinished : ∀ outcome, process ≠ finished outcome) :
    World.earliest world.timers ≠ none := by
  rcases exists_waiter process alive.waits alive.launched unfinished with ⟨waiter, member⟩
  rcases alive.timed waiter member with ⟨_, timer, kept, _⟩
  exact World.earliest_ne_none kept

section Resumed

variable {application : Application σ} {waiter : Nat} {reply : Reply}

mutual

theorem ResumedTo.leads {process process' : Process} {world after : World σ}
    (resumed : ResumedTo application waiter reply process world process' after) :
    world.Leads after := by
  match resumed with
  | .woken _ _ => exact leads_begin application _ world
  | .filled _ _ _ => exact .refl world
  | .settled _ one => exact one.leads.trans (leads_begin application _ _)
  | .join one _ => exact one.leads

theorem OneResumedTo.leads {processes processes' : List Process} {world after : World σ}
    (resumed : OneResumedTo application waiter reply processes world processes' after) :
    world.Leads after := by
  match resumed with
  | .here _ one => exact one.leads
  | .later _ _ one => exact one.leads

end

end Resumed

theorem leads_resume (application : Application σ) (waiter : Nat) (reply : Reply)
    (process : Process) (world : World σ) (after : Process × World σ)
    (resumed : resume application waiter reply process world = some after) :
    world.Leads after.2 :=
  (resumedTo_of_resume application waiter reply process world after resumed).leads

theorem leads_run (application : Application σ) (process : Process) (world : World σ) :
    world.Leads (run application process world).2 := by
  fun_induction run application process world with
  | case1 world outcome => exact .refl world
  | case2 world process _ nothing => exact .refl world
  | case3 world process _ timer found ignored ih =>
      exact (World.leads_fire application timer world).trans ih
  | case4 world process _ timer found after later resumed ih =>
      exact ((World.leads_fire application timer world).trans
        (leads_resume application _ _ process _ _ resumed)).trans ih

/-- A run ends with an outcome that its process can come to. -/
theorem ends_of_run (application : Application σ) (process : Process) (world : World σ)
    (alive : Alive process world) :
    ∃ encountered, process.Ends (run application process world).2
        (run application process world).1 encountered
      ∧ world.Splits (run application process world).2 (Encounter.recordedIn encountered) [] := by
  fun_induction run application process world with
  | case1 world outcome =>
      exact ⟨[], by simp only [Ends, and_self], .refl world []⟩
  | case2 world process unfinished nothing =>
      exact absurd nothing (exists_earliest alive unfinished)
  | case3 world process unfinished timer found ignored ih =>
      rcases ih (alive_of_ignored application timer _ alive ignored) with ⟨encountered, ends, splits⟩
      have silent := World.Splits.of_errors (World.errors_fire application timer world)
        (Encounter.recordedIn encountered)
      exact ⟨encountered, ends, silent.trans splits⟩
  | case4 world process unfinished timer found after later resumed ih =>
      rcases ih (alive_of_resumed application timer _ alive _ resumed) with ⟨future, ends, splits⟩
      have step := resumedTo_of_resume application _ _ process _ _ resumed
      have leads := leads_run application after later
      have delivered := (step.leads.trans leads).saw (World.saw_fire application timer world)
      obtain ⟨encountered, ends, splits'⟩ := step.ends leads delivered ends
      have silent := World.Splits.of_errors (World.errors_fire application timer world)
        (Encounter.recordedIn encountered)
      exact ⟨encountered, ends, (silent.trans splits').trans splits⟩

end Process

end GraphQL
