import GraphQL.Proofs.Ending

/-!
From the end of a run back to its program: starting a program, handing a reply to a process and
letting time pass all keep what the program comes to, and split what is recorded between before and
after.
-/

namespace GraphQL

open Encounter

namespace Process

variable {σ : Type}

variable {application : Application σ} {final : World σ}

theorem BrokenBy.isUrgent {programs : List Program} {world after : World σ} {failure : Failure}
    (broken : BrokenBy application programs world failure after) : failure.isUrgent = true := by
  induction programs generalizing world with
  | nil => cases broken
  | cons program rest ih =>
      cases broken with
      | here _ urgent => exact urgent
      | later _ _ broken => exact ih broken

mutual

/-- Whatever the process ends with, the program comes to. What it records is recorded on the way or
still to come. -/
theorem CarriedTo.comes {program : Program} {world after : World σ} {process : Process}
    (carried : CarriedTo application program world process after) (leads : after.Leads final)
    {outcome : Outcome} {future : List Encounter} (ends : process.Ends final outcome future) :
    ∃ encountered, program.Comes final.account outcome encountered
      ∧ world.Splits after (recordedIn encountered) (recordedIn future) := by
  match carried with
  | .done _ world =>
      simp only [Ends] at ends
      obtain ⟨rfl, rfl⟩ := ends
      exact ⟨[], by simp only [Program.Comes, and_self], .refl world []⟩
  | .call asked rest =>
      obtain ⟨encountered, comes, splits⟩ := rest.comes leads ends
      have saw := (rest.leads.trans leads).saw (World.saw_ask application asked world)
      refine ⟨encountered, ?_, (World.splits_ask application asked world _).trans splits⟩
      simp only [Program.Comes]
      exact ⟨_, saw, comes⟩
  | .perform effect rest =>
      obtain ⟨encountered, comes, splits⟩ := rest.comes leads ends
      refine ⟨effect.encounters ++ encountered, ?_, ?_⟩
      · simp only [Program.Comes]
        exact ⟨encountered, rfl, comes⟩
      · rw [recordedIn_append, recordedIn_effect]
        exact (World.splits_perform world effect _).trans splits
  | .consult key rest =>
      obtain ⟨encountered, comes, splits⟩ := rest.comes leads ends
      refine ⟨encountered, ?_, splits⟩
      simp only [Program.Comes]
      exact ⟨_, consulted_of_consult final key world (rest.leads.trans leads), comes⟩
  | .drain handle rest =>
      obtain ⟨encountered, comes, splits⟩ := rest.comes leads ends
      have saw := (rest.leads.trans leads).saw (World.saw_drain application handle world)
      refine ⟨encountered, ?_, (World.splits_drain application handle world _).trans splits⟩
      simp only [Program.Comes]
      exact ⟨_, _, saw, comes⟩
  | .unawaited rest =>
      obtain ⟨encountered, comes, splits⟩ := rest.comes leads ends
      refine ⟨encountered, ?_, splits⟩
      simp only [Program.Comes]
      exact ⟨.ok [], .nil, comes⟩
  | .wait ticket tickets _ world =>
      simp only [Ends] at ends
      obtain ⟨result, gets, comes⟩ := ends
      refine ⟨future, ?_, .refl world _⟩
      simp only [Program.Comes]
      exact ⟨result, Pending.allGet_tickets final _ result gets, comes⟩
  | .broken middle broken rest =>
      obtain ⟨encountered, comes, splits⟩ := rest.comes leads ends
      have found := broken.comes (rest.leads.trans leads)
      refine ⟨middle.errors.map .recorded ++ encountered, ?_, ?_⟩
      · simp only [Program.Comes]
        exact .inr ⟨_, _, encountered, broken.isUrgent, found, comes, rfl⟩
      · rw [recordedIn_append, recordedIn_recorded]
        exact .given_up broken.leads.errors splits
  | .settled outcomes each rest =>
      obtain ⟨encountered, comes, splits⟩ := rest.comes leads ends
      obtain ⟨part, comesEach, splitsPart⟩ :=
        each.comes (rest.leads.trans leads) (endsEach_finished final outcomes)
      refine ⟨part ++ encountered, ?_, ?_⟩
      · simp only [Program.Comes]
        exact .inl ⟨outcomes, part, encountered, comesEach, comes, rfl⟩
      · rw [recordedIn_outcomes] at splitsPart
        rw [recordedIn_append]
        exact splitsPart.append splits
  | .join each _ =>
      simp only [Ends] at ends
      obtain ⟨outcomes, part, rest, ends, comes, rfl⟩ := ends
      obtain ⟨encountered, comesEach, splits⟩ := each.comes leads ends
      refine ⟨encountered ++ rest, ?_, ?_⟩
      · simp only [Program.Comes]
        exact .inl ⟨outcomes, encountered, rest, comesEach, comes, rfl⟩
      · rw [recordedIn_append, recordedIn_append]
        exact splits.append (.refl _ _)

theorem CarriedToEach.comes {programs : List Program} {world after : World σ}
    {processes : List Process} (each : CarriedToEach application programs world processes after)
    (leads : after.Leads final) {outcomes : List Outcome} {future : List Encounter}
    (ends : EndsEach final processes outcomes future) :
    ∃ encountered, Program.ComesEach final.account programs outcomes encountered
      ∧ world.Splits after (recordedIn encountered) (recordedIn future) := by
  match each with
  | .nil world =>
      simp only [EndsEach] at ends
      obtain ⟨rfl, rfl⟩ := ends
      exact ⟨[], by simp only [Program.ComesEach, and_self], .refl world []⟩
  | .cons head _ rest =>
      simp only [EndsEach] at ends
      obtain ⟨outcome, others, part, later, rfl, rfl, here, there⟩ := ends
      obtain ⟨first, comes, splits⟩ := head.comes (rest.leads.trans leads) here
      obtain ⟨second, comesEach, splitsRest⟩ := rest.comes leads there
      refine ⟨first ++ (outcome.encounters ++ second), ?_, ?_⟩
      · simp only [Program.ComesEach]
        exact ⟨outcome, others, first, second, rfl, rfl, comes, comesEach⟩
      · simp only [recordedIn_append, recordedIn_outcome, List.nil_append]
        exact splits.append splitsRest

theorem BrokenBy.comes {programs : List Program} {world after : World σ} {failure : Failure}
    (broken : BrokenBy application programs world failure after) (leads : after.Leads final) :
    Program.ComesSome final.account programs failure := by
  match broken with
  | .here head _ =>
      have ended : (finished (.error failure)).Ends final (.error failure) [] := by
        simp only [Ends, and_self]
      obtain ⟨part, comes, _⟩ := head.comes leads ended
      simp only [Program.ComesSome]
      exact .inl ⟨part, comes⟩
  | .later head _ rest =>
      simp only [Program.ComesSome]
      exact .inr (rest.comes leads)

end

theorem comes_of_begin (application : Application σ) (final : World σ) (program : Program)
    (world : World σ) (leads : (begin application program world).2.Leads final)
    (outcome : Outcome) (future : List Encounter)
    (ends : (begin application program world).1.Ends final outcome future) :
    ∃ encountered, program.Comes final.account outcome encountered
      ∧ world.Splits (begin application program world).2 (recordedIn encountered) (recordedIn future) := by
  have launched := leads_launch application (start application program world).1
    (start application program world).2
  have started := ends_of_launch application final _ _ leads outcome future ends
  obtain ⟨encountered, comes, splits⟩ :=
    (carriedTo_start application program world).comes (launched.trans leads) started
  have silent := World.Splits.of_errors
    (errors_launch application (start application program world).1
      (start application program world).2) (recordedIn future)
  exact ⟨encountered, comes, splits.trans silent⟩

theorem arrivals?_cons (value : Value) (rest : List Pending) :
    arrivals? (.arrived value :: rest) = (arrivals? rest).map (value :: ·) := by
  simp only [arrivals?, List.mapM_cons, Option.pure_def, Option.bind_eq_bind, Option.bind_some,
    Option.map_eq_bind]
  rfl

theorem gets_arrived (final : World σ) (slots : List Pending) (values : List Value)
    (arrived : arrivals? slots = some values) : Pending.AllGet final slots (.ok values) := by
  induction slots generalizing values with
  | nil =>
      cases arrived
      exact .nil
  | cons slot rest ih =>
      cases slot with
      | arrived value =>
          rw [arrivals?_cons, Option.map_eq_some_iff] at arrived
          rcases arrived with ⟨others, found, rfl⟩
          exact .cons rfl (ih others found)
      | ticket number => cases arrived
      | waiter number => cases arrived

/-- Filling a slot does not change what it gets, once its waiter has got the value. -/
theorem gets_of_fill (final : World σ) (waiter : Nat) (value : Value)
    (delivered : final.Saw (.delivered waiter (.ok value))) (slots : List Pending) :
    List.Forall₂ (fun slot filled => ∀ reply, Pending.Gets final filled reply →
      Pending.Gets final slot reply) slots (fill waiter value slots) := by
  unfold fill
  rw [List.forall₂_map_right_iff, List.forall₂_same]
  intro slot _ reply gets
  by_cases waits : isWaiter waiter slot = true
  · rw [if_pos waits] at gets
    rw [show reply = .ok value from gets]
    cases slot with
    | waiter number =>
        simp only [isWaiter, decide_eq_true_eq] at waits
        rw [waits]
        exact delivered
    | ticket number => cases waits
    | arrived other => cases waits
  · rwa [if_neg waits] at gets

theorem allGet_of_fill {waiter : Nat} {value : Value} {slots : List Pending}
    (delivered : final.Saw (.delivered waiter (.ok value))) {result : Except Failure (List Value)}
    (gets : Pending.AllGet final (fill waiter value slots) result) :
    Pending.AllGet final slots result :=
  allGet_of_forall₂ final (gets_of_fill final waiter value delivered slots) result gets

theorem allGet_of_any {waiter : Nat} {slots : List Pending} {failure : Failure}
    (found : slots.any (isWaiter waiter) = true)
    (delivered : final.Saw (.delivered waiter (.error failure))) :
    Pending.AllGet final slots (.error failure) := by
  obtain ⟨slot, member, waits⟩ := List.any_eq_true.1 found
  refine ⟨slot, member, ?_⟩
  cases slot with
  | waiter number =>
      simp only [isWaiter, decide_eq_true_eq] at waits
      rw [waits]
      exact delivered
  | ticket number => cases waits
  | arrived other => cases waits

theorem Answered.allGet {waiter : Nat} {slots : List Pending} {reply : Reply}
    {result : Except Failure (List Value)} (answered : Answered waiter slots reply result)
    (found : slots.any (isWaiter waiter) = true) (delivered : final.Saw (.delivered waiter reply)) :
    Pending.AllGet final slots result := by
  cases answered with
  | refused failure => exact allGet_of_any found delivered
  | arrived all => exact allGet_of_fill delivered (gets_arrived final _ _ all)

mutual

/-- Whatever a process ends with after a reply, it ended with before. -/
theorem ResumedTo.ends {waiter : Nat} {reply : Reply} {process process' : Process}
    {world after : World σ}
    (resumed : ResumedTo application waiter reply process world process' after)
    (leads : after.Leads final) (delivered : final.Saw (.delivered waiter reply))
    {outcome : Outcome} {future : List Encounter} (ends : process'.Ends final outcome future) :
    ∃ encountered, process.Ends final outcome encountered
      ∧ world.Splits after (recordedIn encountered) (recordedIn future) := by
  match resumed with
  | .woken found answered =>
      obtain ⟨encountered, comes, splits⟩ :=
        comes_of_begin application final _ world leads outcome future ends
      refine ⟨encountered, ?_, splits⟩
      simp only [Ends]
      exact ⟨_, answered.allGet found delivered, comes⟩
  | .filled found same pending =>
      subst same
      simp only [Ends] at ends ⊢
      obtain ⟨result, gets, comes⟩ := ends
      exact ⟨future, ⟨result, allGet_of_fill delivered gets, comes⟩, .refl world _⟩
  | .settled outcomes one =>
      obtain ⟨rest, comes, splits⟩ :=
        comes_of_begin application final _ _ leads outcome future ends
      obtain ⟨part, each, splitsPart⟩ := one.ends ((leads_begin application _ _).trans leads) delivered
        (endsEach_finished final outcomes)
      refine ⟨part ++ rest, ?_, ?_⟩
      · simp only [Ends]
        exact ⟨outcomes, part, rest, each, comes, rfl⟩
      · rw [recordedIn_outcomes] at splitsPart
        rw [recordedIn_append]
        exact splitsPart.append splits
  | .join one pending =>
      simp only [Ends] at ends ⊢
      obtain ⟨outcomes, part, rest, each, comes, rfl⟩ := ends
      obtain ⟨encountered, each, splits⟩ := one.ends leads delivered each
      refine ⟨encountered ++ rest, ⟨outcomes, encountered, rest, each, comes, rfl⟩, ?_⟩
      rw [recordedIn_append, recordedIn_append]
      exact splits.append (.refl _ _)

theorem OneResumedTo.ends {waiter : Nat} {reply : Reply} {processes processes' : List Process}
    {world after : World σ}
    (resumed : OneResumedTo application waiter reply processes world processes' after)
    (leads : after.Leads final) (delivered : final.Saw (.delivered waiter reply))
    {outcomes : List Outcome} {future : List Encounter}
    (ends : EndsEach final processes' outcomes future) :
    ∃ encountered, EndsEach final processes outcomes encountered
      ∧ world.Splits after (recordedIn encountered) (recordedIn future) := by
  match resumed with
  | .here _ one =>
      simp only [EndsEach] at ends ⊢
      obtain ⟨outcome, others, part, tail, rfl, rfl, head, ends⟩ := ends
      obtain ⟨encountered, head, splits⟩ := one.ends leads delivered head
      refine ⟨_, ⟨outcome, others, encountered, tail, rfl, rfl, head, ends⟩, ?_⟩
      rw [recordedIn_append, recordedIn_append part]
      exact splits.append (.refl _ _)
  | .later _ _ rest =>
      simp only [EndsEach] at ends ⊢
      obtain ⟨outcome, others, part, tail, rfl, rfl, head, ends⟩ := ends
      obtain ⟨encountered, tail', splits⟩ := rest.ends leads delivered ends
      refine ⟨_, ⟨outcome, others, part, encountered, rfl, rfl, head, tail'⟩, ?_⟩
      simp only [recordedIn_append, recordedIn_outcome, List.nil_append]
      exact (World.Splits.refl world _).append splits

end

end Process

end GraphQL
