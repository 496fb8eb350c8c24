import GraphQL.Proofs.Listing
import GraphQL.Proofs.Sequence

/-!
What happens at once. While a program is carried out without waiting, errors are encountered one
after the other: a part that is joined with others ends with one, or one is recorded. If nothing has
to be waited for, these are the errors that the program encounters under the account of the run, and
it does not matter whether the fields at the root run in turn or side by side.
-/

namespace GraphQL

open Encounter ResponseError

/-- How a process has ended that is joined with others. -/
def Process.ended : Process → List Encounter
  | .finished outcome => outcome.encounters
  | _ => []

namespace Process

variable {σ : Type}

mutual

/-- The errors that are encountered while a program is started, in their order. -/
def encounters (application : Application σ) (program : Program) (world : World σ) :
    List Encounter :=
  match program with
  | .done _ => []
  | .call asked next =>
    let (reply, world) := world.ask application asked
    encounters application (next reply) world
  | .perform effect next => effect.encounters ++ encounters application next (world.perform effect)
  | .consult key next => encounters application (next (world.consult key)) world
  | .drain handle next =>
    let ((items, fault), world) := world.drain application handle
    encounters application (next items fault) world
  | .wait [] next => encounters application (next (.ok [])) world
  | .wait _ _ => []
  | .join children next =>
    encountersOfAll application children world ++
      match startAll application children world with
      | (.error failure, world) => encounters application (next (.error failure)) world
      | (.ok processes, world) =>
        match outcomes? processes with
        | some outcomes => encounters application (next (.ok outcomes)) world
        | none => []

def encountersOfAll (application : Application σ) (programs : List Program) (world : World σ) :
    List Encounter :=
  match programs with
  | [] => []
  | program :: rest =>
    let (process, after) := start application program world
    encounters application program world ++
      match process.urgent? with
      | some _ => []
      | none => process.ended ++ encountersOfAll application rest after

end

theorem recordedIn_ended (process : Process) : recordedIn process.ended = [] := by
  cases process with
  | finished outcome => exact recordedIn_outcome outcome
  | waiting slots next => rfl
  | joining children next => rfl

theorem errors_perform (world : World σ) (effect : Effect) :
    (world.perform effect).errors = effect.errors.foldl noted world.errors := by
  cases effect with
  | record error =>
      simp only [World.perform, World.record, Effect.errors, List.foldl_cons, List.foldl_nil, noted]
      split <;> rfl
  | close tickets => exact World.errors_closeAll tickets world
  | _ => rfl

variable {application : Application σ} {final : World σ}

mutual

theorem CarriedTo.errors {program : Program} {world after : World σ} {process : Process}
    (carried : CarriedTo application program world process after) :
    after.errors
      = (recordedIn (encounters application program world)).foldl noted world.errors := by
  match carried with
  | .done _ _ => simp only [encounters, recordedIn_nil, List.foldl_nil]
  | .call _ rest =>
      simp only [encounters]
      exact rest.errors
  | .perform effect rest =>
      simp only [encounters, recordedIn_append, recordedIn_effect, List.foldl_append,
        ← errors_perform, rest.errors]
  | .consult _ rest => simp only [encounters, rest.errors]
  | .drain _ rest =>
      simp only [encounters]
      exact rest.errors
  | .unawaited rest => simp only [encounters, rest.errors]
  | .wait _ _ _ _ => simp only [encounters, recordedIn_nil, List.foldl_nil]
  | .broken _ broken rest =>
      simp only [encounters, broken.eq, recordedIn_append, List.foldl_append, ← broken.errors,
        rest.errors]
  | .settled outcomes each rest =>
      simp only [encounters, each.eq, outcomes?_map_finished, recordedIn_append, List.foldl_append,
        ← each.errors, rest.errors]
  | .join each pending =>
      simp only [encounters, each.eq, pending, List.append_nil, each.errors]

theorem CarriedToEach.errors {programs : List Program} {world after : World σ}
    {processes : List Process} (each : CarriedToEach application programs world processes after) :
    after.errors
      = (recordedIn (encountersOfAll application programs world)).foldl noted world.errors := by
  match each with
  | .nil _ => simp only [encountersOfAll, recordedIn_nil, List.foldl_nil]
  | .cons head calm rest =>
      simp only [encountersOfAll, head.eq, calm, recordedIn_append, recordedIn_ended, List.nil_append,
        List.foldl_append, ← head.errors, rest.errors]

theorem BrokenBy.errors {programs : List Program} {world after : World σ} {failure : Failure}
    (broken : BrokenBy application programs world failure after) :
    after.errors
      = (recordedIn (encountersOfAll application programs world)).foldl noted world.errors := by
  match broken with
  | .here head urgent =>
      simp only [encountersOfAll, head.eq, urgent?, urgent, if_true, List.append_nil, head.errors]
  | .later head calm rest =>
      simp only [encountersOfAll, head.eq, calm, recordedIn_append, recordedIn_ended, List.nil_append,
        List.foldl_append, ← head.errors, rest.errors]

end

mutual

/-- A program that does not have to wait comes to its outcome with the errors that are encountered. -/
theorem CarriedTo.encountered {program : Program} {world after : World σ} {process : Process}
    (carried : CarriedTo application program world process after) (leads : after.Leads final)
    {outcome : Outcome} (done : process = finished outcome) :
    program.Comes final.account outcome (encounters application program world) := by
  match carried with
  | .done _ _ =>
      cases done
      simp only [Program.Comes, encounters, and_self]
  | .call asked rest =>
      have saw := (rest.leads.trans leads).saw (World.saw_ask application asked world)
      simp only [Program.Comes, encounters]
      exact ⟨_, saw, rest.encountered leads done⟩
  | .perform _ rest =>
      simp only [Program.Comes, encounters]
      exact ⟨_, rfl, rest.encountered leads done⟩
  | .consult key rest =>
      simp only [Program.Comes, encounters]
      exact ⟨_, consulted_of_consult final key world (rest.leads.trans leads),
        rest.encountered leads done⟩
  | .drain handle rest =>
      have saw := (rest.leads.trans leads).saw (World.saw_drain application handle world)
      simp only [Program.Comes, encounters]
      exact ⟨_, _, saw, rest.encountered leads done⟩
  | .unawaited rest =>
      simp only [Program.Comes, encounters]
      exact ⟨.ok [], .nil, rest.encountered leads done⟩
  | .wait _ _ _ _ => cases done
  | .broken _ broken rest =>
      have found := broken.comes (rest.leads.trans leads)
      simp only [Program.Comes, encounters, broken.eq]
      exact .inr ⟨_, _, _, broken.isUrgent, found, rest.encountered leads done, rfl⟩
  | .settled outcomes each rest =>
      have comes := each.encountered (rest.leads.trans leads) outcomes rfl
      simp only [Program.Comes, encounters, each.eq, outcomes?_map_finished]
      exact .inl ⟨outcomes, _, _, comes, rest.encountered leads done, rfl⟩
  | .join _ _ => cases done

theorem CarriedToEach.encountered {programs : List Program} {world after : World σ}
    {processes : List Process} (each : CarriedToEach application programs world processes after)
    (leads : after.Leads final) (outcomes : List Outcome) (done : processes = outcomes.map finished) :
    Program.ComesEach final.account programs outcomes
      (encountersOfAll application programs world) := by
  match each, outcomes with
  | .nil _, [] => simp only [Program.ComesEach, encountersOfAll, and_self]
  | .cons head calm rest, outcome :: others =>
      simp only [List.map_cons, List.cons.injEq] at done
      obtain ⟨rfl, later⟩ := done
      simp only [Program.ComesEach, encountersOfAll, head.eq, calm]
      exact ⟨outcome, others, _, _, rfl, rfl, head.encountered (rest.leads.trans leads) rfl,
        rest.encountered leads others later⟩

end

open Execution

theorem start_join_cons {application : Application σ} {program : Program} {world after : World σ}
    {ended outcome : Outcome} (head : start application program world = (finished ended, after))
    (calm : (finished ended).urgent? = none) (rest : List Program)
    (next : Except Failure (List Outcome) → Program)
    (done : (start application (.join rest fun settled => next (settled.map (ended :: ·))) after).1
      = finished outcome) :
    start application (.join (program :: rest) next) world
      = start application (.join rest fun settled => next (settled.map (ended :: ·))) after := by
  simp only [start] at done
  simp only [start, startAll, head, calm]
  split at done
  · next failure later started => simp only [started, Except.map]
  · next processes later started =>
      simp only [started, Except.map, outcomes?]
      split at done
      · next outcomes all => simp only [all, Option.map_some]
      · cases done

theorem start_join_urgent {application : Application σ} {program : Program} {world after : World σ}
    {failure : Failure}
    (head : start application program world = (finished (.error failure), after))
    (urgent : failure.isUrgent = true) (rest : List Program)
    (next : Except Failure (List Outcome) → Program) :
    start application (.join (program :: rest) next) world
      = start application (next (.error failure)) after := by
  simp only [start, startAll, head, urgent?, urgent, if_true]

/-- Programs that run in turn and need not wait do what they do side by side. -/
theorem start_inTurn (application : Application σ) (next : Except Failure (List Outcome) → Program)
    (programs : List Program) (settled : List Outcome) (world : World σ) {outcome : Outcome}
    (done : (start application (inTurn next programs settled) world).1 = finished outcome) :
    start application (inTurn next programs settled) world
      = start application (.join programs fun result => next (result.map (settled ++ ·))) world := by
  induction programs generalizing settled world with
  | nil => simp only [inTurn, start, startAll, outcomes?, Except.map, List.append_nil]
  | cons program rest ih =>
      rw [inTurn, start_andThen] at done ⊢
      cases head : start application program world with
      | mk process after =>
          rw [head] at done
          cases process with
          | waiting slots later => cases done
          | joining children later => cases done
          | finished ended =>
              have goesOn (calm : (finished ended).urgent? = none)
                  (done : (start application (inTurn next rest (settled ++ [ended])) after).1
                    = finished outcome) :
                  start application (inTurn next rest (settled ++ [ended])) after
                    = start application
                      (.join (program :: rest) fun result => next (result.map (settled ++ ·)))
                      world := by
                have same : (fun result : Except Failure (List Outcome) =>
                    next (result.map (settled ++ [ended] ++ ·)))
                    = fun result => next ((result.map (ended :: ·)).map (settled ++ ·)) := by
                  funext result
                  cases result <;> simp [Except.map]
                have later := ih (settled ++ [ended]) after done
                rw [same] at later
                rw [start_join_cons head calm rest _ (later ▸ done), later]
              cases ended with
              | ok value => exact goesOn rfl done
              | error failure =>
                  cases failure with
                  | response error => exact goesOn rfl done
                  | _ =>
                      rw [start_join_urgent head rfl]
                      rfl

theorem finished_of_followedBy {go : Program → World σ → Process × World σ}
    {next : Outcome → Program} {started : Process × World σ} {outcome : Outcome}
    (done : (followedBy go next started).1 = finished outcome) :
    ∃ ended, started.1 = finished ended := by
  obtain ⟨process, world⟩ := started
  cases process with
  | finished ended => exact ⟨ended, rfl⟩
  | waiting slots rest => cases done
  | joining children rest => cases done

/-- An operation that need not wait does the same in whichever order its root fields are executed. -/
theorem start_operationIn (application : Application σ) (setting : Setting) (order : RootOrder)
    (root : TypeId) (world : World σ) {outcome : Outcome}
    (done : (start application (operationIn setting order root) world).1 = finished outcome) :
    start application (operationIn setting order root) world
      = start application (operationIn setting .sideBySide root) world := by
  cases order with
  | sideBySide => rfl
  | inTurn =>
      rw [operationIn, operationIn, start_andThen, start_andThen, start_act, start_act] at *
      rcases finished_of_followedBy done with ⟨ended, within⟩
      refine congrArg _ ?_
      cases collected : ((setting.scope.collect root setting.environment.operation.selections).run
          (World.ask application) world).1 with
      | error failure => rfl
      | ok fields =>
          rw [collected] at within
          refine (start_inTurn application _ _ _ _ within).trans ?_
          have same (build : List Value → Value) :
              (fun result : Except Failure (List Outcome) =>
                Program.gathered build (result.map ([] ++ ·))) = Program.gathered build := by
            funext result
            cases result <;> rfl
          rw [same]
          rfl

end Process

end GraphQL
