import GraphQL.Proofs.Run
import GraphQL.Proofs.Steps

/-!
What a process ends with. Seen from the last world of a run, a process ends with an outcome and
encounters errors from now on; each step back keeps this, and at the first step it is what the program
comes to.
-/

namespace GraphQL

namespace Pending

variable {σ : Type}

/-- What a slot gets by the end of a run. -/
def Gets (final : World σ) : Pending → Reply → Prop
  | .ticket number, reply => final.account.came number reply
  | .waiter number, reply => final.Saw (.delivered number reply)
  | .arrived value, reply => reply = .ok value

/-- All slots get values, or one of them gets a failure. -/
def AllGet (final : World σ) (slots : List Pending) : Except Failure (List Value) → Prop
  | .ok values => List.Forall₂ (fun slot value => slot.Gets final (.ok value)) slots values
  | .error failure => ∃ slot ∈ slots, slot.Gets final (.error failure)

theorem allGet_tickets (final : World σ) (tickets : List Nat) (result : Except Failure (List Value))
    (gets : AllGet final (tickets.map .ticket) result) :
    final.account.Awaited tickets result := by
  cases result with
  | error failure =>
      rcases gets with ⟨slot, member, gets⟩
      rcases List.mem_map.1 member with ⟨number, inside, rfl⟩
      exact ⟨number, inside, gets⟩
  | ok values =>
      rw [AllGet, List.forall₂_map_left_iff] at gets
      exact gets

end Pending

namespace Process

variable {σ : Type}

mutual

/-- The outcomes that a process can still come to, with the errors encountered from now on. -/
def Ends (final : World σ) : Process → Outcome → List Encounter → Prop
  | finished result, outcome, future => outcome = result ∧ future = []
  | waiting slots next, outcome, future =>
    ∃ result, Pending.AllGet final slots result ∧ (next result).Comes final.account outcome future
  | joining children next, outcome, future =>
    ∃ outcomes part rest, EndsEach final children outcomes part
      ∧ (next (.ok outcomes)).Comes final.account outcome rest ∧ future = part ++ rest

def EndsEach (final : World σ) : List Process → List Outcome → List Encounter → Prop
  | [], outcomes, future => outcomes = [] ∧ future = []
  | process :: rest, outcomes, future =>
    ∃ outcome others part later, outcomes = outcome :: others
      ∧ future = part ++ (outcome.encounters ++ later)
      ∧ process.Ends final outcome part ∧ EndsEach final rest others later

end

theorem consulted_of_consult (final : World σ) (key : SubfieldKey) (world : World σ)
    (leads : world.Leads final) : final.account.Consulted key (world.consult key) := by
  unfold World.consult
  cases found : world.cache.find? fun entry => entry.1.equals key with
  | none => exact True.intro
  | some entry =>
      exact ⟨entry.1, leads.cache (List.mem_of_find?_eq_some found),
        by simpa using List.find?_some found⟩

theorem endsEach_finished (final : World σ) (outcomes : List Outcome) :
    EndsEach final (outcomes.map finished) outcomes (outcomes.flatMap Outcome.encounters) := by
  induction outcomes with
  | nil => simp only [List.map_nil, EndsEach, List.flatMap_nil, and_self]
  | cons outcome rest ih =>
      simp only [List.map_cons, List.flatMap_cons, EndsEach, Ends]
      exact ⟨outcome, rest, [], _, rfl, rfl, ⟨rfl, rfl⟩, ih⟩

section Steps

variable {application : Application σ}

mutual

theorem CarriedTo.leads {program : Program} {world after : World σ} {process : Process}
    (carried : CarriedTo application program world process after) : world.Leads after := by
  match carried with
  | .done _ world => exact .refl world
  | .call asked rest => exact (World.leads_ask application asked world).trans rest.leads
  | .perform effect rest => exact (world.leads_perform effect).trans rest.leads
  | .consult _ rest => exact rest.leads
  | .drain handle rest => exact (World.leads_drain application handle world).trans rest.leads
  | .unawaited rest => exact rest.leads
  | .wait _ _ _ world => exact .refl world
  | .broken _ broken rest => exact broken.leads.trans rest.leads
  | .settled _ each rest => exact each.leads.trans rest.leads
  | .join each _ => exact each.leads

theorem CarriedToEach.leads {programs : List Program} {world after : World σ}
    {processes : List Process} (each : CarriedToEach application programs world processes after) :
    world.Leads after := by
  match each with
  | .nil world => exact .refl world
  | .cons head _ rest => exact head.leads.trans rest.leads

theorem BrokenBy.leads {programs : List Program} {world after : World σ} {failure : Failure}
    (broken : BrokenBy application programs world failure after) : world.Leads after := by
  match broken with
  | .here head _ => exact head.leads
  | .later head _ rest => exact head.leads.trans rest.leads

end

end Steps

theorem leads_start (application : Application σ) (program : Program) (world : World σ) :
    world.Leads (start application program world).2 :=
  (carriedTo_start application program world).leads

theorem leads_startAll (application : Application σ) (programs : List Program) (world : World σ) :
    world.Leads (startAll application programs world).2 := by
  obtain ⟨broken, each⟩ := carriedTo_startAll application programs world
  rcases started : startAll application programs world with ⟨failure | processes, after⟩
  · exact (broken failure after started).leads
  · exact (each processes after started).leads

theorem leads_startAll_cons (application : Application σ) (program : Program) (rest : List Program)
    (world : World σ) :
    (start application program world).2.Leads
      (startAll application (program :: rest) world).2 := by
  simp only [startAll]
  split
  · exact .refl _
  · exact leads_startAll application rest _

theorem leads_startAll_join (application : Application σ) (children : List Program)
    (next : Except Failure (List Outcome) → Program) (world : World σ) :
    (startAll application children world).2.Leads
      (start application (.join children next) world).2 := by
  simp only [start]
  split
  · next failure after started =>
      rw [started]
      exact leads_start application _ after
  · next processes after started =>
      rw [started]
      split
      · exact leads_start application _ after
      · exact .refl after

theorem leads_launchSlots (application : Application σ) (slots : List Pending) (world : World σ) :
    world.Leads (launchSlots application slots world).2 := by
  induction slots generalizing world with
  | nil => exact .refl world
  | cons slot rest ih =>
      cases slot with
      | ticket ticket =>
          simp only [launchSlots]
          exact (World.leads_launch application ticket world).trans (ih _)
      | waiter waiter =>
          simp only [launchSlots]
          exact ih world
      | arrived value =>
          simp only [launchSlots]
          exact ih world

theorem errors_launchSlots (application : Application σ) (slots : List Pending) (world : World σ) :
    (launchSlots application slots world).2.errors = world.errors := by
  induction slots generalizing world with
  | nil => rfl
  | cons slot rest ih =>
      cases slot with
      | ticket ticket => simp only [launchSlots, ih, World.errors_launch]
      | waiter waiter => simp only [launchSlots, ih]
      | arrived value => simp only [launchSlots, ih]

mutual

theorem leads_launch (application : Application σ) (process : Process) (world : World σ) :
    world.Leads (launch application process world).2 := by
  match process with
  | finished outcome =>
      simp only [launch]
      exact .refl world
  | waiting slots next =>
      simp only [launch]
      exact leads_launchSlots application slots world
  | joining children next =>
      simp only [launch]
      exact leads_launchAll application children world

theorem leads_launchAll (application : Application σ) (processes : List Process)
    (world : World σ) : world.Leads (launchAll application processes world).2 := by
  match processes with
  | [] =>
      simp only [launchAll]
      exact .refl world
  | process :: rest =>
      simp only [launchAll]
      exact (leads_launch application process world).trans (leads_launchAll application rest _)

end

mutual

theorem errors_launch (application : Application σ) (process : Process) (world : World σ) :
    (launch application process world).2.errors = world.errors := by
  match process with
  | finished outcome => simp only [launch]
  | waiting slots next => simp only [launch, errors_launchSlots]
  | joining children next => simp only [launch, errors_launchAll application children world]

theorem errors_launchAll (application : Application σ) (processes : List Process)
    (world : World σ) : (launchAll application processes world).2.errors = world.errors := by
  match processes with
  | [] => simp only [launchAll]
  | process :: rest =>
      simp only [launchAll]
      rw [errors_launchAll application rest, errors_launch application process]

end

theorem leads_begin (application : Application σ) (program : Program) (world : World σ) :
    world.Leads (begin application program world).2 :=
  (leads_start application program world).trans (leads_launch application _ _)

theorem gets_of_launchSlots (application : Application σ) (final : World σ) (slots : List Pending)
    (world : World σ) (leads : (launchSlots application slots world).2.Leads final) :
    List.Forall₂ (fun slot launched => ∀ reply, Pending.Gets final launched reply →
      Pending.Gets final slot reply) slots (launchSlots application slots world).1 := by
  induction slots generalizing world with
  | nil => exact .nil
  | cons slot rest ih =>
      cases slot with
      | ticket ticket =>
          simp only [launchSlots] at leads ⊢
          refine .cons ?_ (ih _ leads)
          intro reply delivered
          have launched := ((leads_launchSlots application rest _).trans leads).saw
            (World.saw_launch application ticket world)
          exact ⟨_, launched, delivered⟩
      | waiter waiter => exact .cons (fun _ gets => gets) (ih world leads)
      | arrived value => exact .cons (fun _ gets => gets) (ih world leads)

theorem allGet_of_forall₂ (final : World σ) {slots launched : List Pending}
    (each : List.Forall₂ (fun slot launched => ∀ reply, Pending.Gets final launched reply →
      Pending.Gets final slot reply) slots launched)
    (result : Except Failure (List Value)) (gets : Pending.AllGet final launched result) :
    Pending.AllGet final slots result := by
  induction each generalizing result with
  | nil => exact gets
  | cons head _ ih =>
      cases result with
      | error failure =>
          rcases gets with ⟨slot, member, gets⟩
          rcases List.mem_cons.1 member with rfl | inside
          · exact ⟨_, List.mem_cons_self, head _ gets⟩
          · rcases ih (.error failure) ⟨slot, inside, gets⟩ with ⟨found, inside, gets⟩
            exact ⟨found, List.mem_cons_of_mem _ inside, gets⟩
      | ok values =>
          cases gets with
          | cons first others => exact .cons (head _ first) (ih (.ok _) others)

mutual

theorem ends_of_launch (application : Application σ) (final : World σ) (process : Process)
    (world : World σ) (leads : (launch application process world).2.Leads final)
    (outcome : Outcome) (future : List Encounter)
    (ends : (launch application process world).1.Ends final outcome future) :
    process.Ends final outcome future := by
  match process with
  | finished result => simpa only [launch] using ends
  | waiting slots next =>
      simp only [launch, Ends] at leads ends ⊢
      rcases ends with ⟨result, gets, comes⟩
      exact ⟨result, allGet_of_forall₂ final (gets_of_launchSlots application final slots world leads)
        result gets, comes⟩
  | joining children next =>
      simp only [launch, Ends] at leads ends ⊢
      rcases ends with ⟨outcomes, part, rest, each, comes, split⟩
      exact ⟨outcomes, part, rest,
        endsEach_of_launchAll application final children world leads outcomes part each, comes, split⟩

theorem endsEach_of_launchAll (application : Application σ) (final : World σ)
    (processes : List Process) (world : World σ)
    (leads : (launchAll application processes world).2.Leads final)
    (outcomes : List Outcome) (future : List Encounter)
    (ends : EndsEach final (launchAll application processes world).1 outcomes future) :
    EndsEach final processes outcomes future := by
  match processes with
  | [] => simpa only [launchAll] using ends
  | process :: rest =>
      simp only [launchAll, EndsEach] at leads ends ⊢
      rcases ends with ⟨outcome, others, part, later, rfl, rfl, head, tail⟩
      have middle := leads_launchAll application rest (launch application process world).2
      exact ⟨outcome, others, part, later, rfl, rfl,
        ends_of_launch application final process world (middle.trans leads) outcome part head,
        endsEach_of_launchAll application final rest _ leads others later tail⟩

end

end Process

end GraphQL
