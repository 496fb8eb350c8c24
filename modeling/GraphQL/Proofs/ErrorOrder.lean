import GraphQL.Proofs.AtOnce
import GraphQL.Proofs.Direct
import GraphQL.Proofs.Disposal
import GraphQL.Proofs.Overtaking
import GraphQL.Proofs.Propagation
import Mathlib

/-!
The order of the errors of a request. Where nothing deferred is handed over, two errors are listed in
the order in which they were encountered, unless the first one failed a place that forbids null and
the other one was encountered at or below a place beside it.
-/

namespace GraphQL

open ResponseError

namespace Request

variable {σ : Type} {setting : Setting}

/-- An operation to which nothing deferred is handed over encounters the errors of its places in
their order, and lists them as they are recorded there. -/
theorem listed_of_carryOut (application : Application σ) (order : RootOrder) (root : TypeId)
    (sound : Sound setting.schema setting.schema.Knows) (knownRoot : setting.schema.Knows root)
    (world : World σ) (ready : world.Ready) (report : Report σ)
    (carried : report = carryOut application setting.synchronous
      (Execution.operationIn setting order root) world)
    (plain : setting.schema.WritesPlain report.world.account)
    (ordinary : report.world.account.Ordinary setting.environment.root)
    (direct : ∀ ticket, ¬ report.world.HandedOver ticket) (response : Response)
    (answered : report.outcome = .ok response) :
    ∃ place, Reference.executed setting report.world.account root (.ok place)
      ∧ firsts ((Process.encounters application
          (Execution.operationIn setting .sideBySide root) world).map Encounter.error)
        = place.errors []
      ∧ response.errors = place.listed := by
  have kept := keeps_of_carryOut application setting.synchronous _ world
    (Execution.obeys_operationIn sound.toClosed order knownRoot) ready.keeps
  have leads := leads_of_start application setting.synchronous
    (Execution.operationIn setting order root) world
  rw [← carried] at kept leads
  have faithful : Faithful setting report.world.account setting.schema.Knows :=
    ⟨plain, fun key fields remembered => kept.remembered (key, fields) remembered⟩
  rcases (Process.carriedTo_start application _ world).finished_of_direct direct leads
    (Execution.direct_operationIn plain sound order knownRoot) with ⟨outcome, done⟩
  -- What need not wait is over once it is started, whatever the order of the root fields.
  have beside := Process.start_operationIn application setting order root world done
  have responds := carryOut_of_finished application setting.synchronous
    (Prod.ext done rfl : Process.start application _ world = (.finished outcome, _))
  rw [← carried] at responds
  have final : report.world
      = (Process.start application (Execution.operationIn setting .sideBySide root) world).2 := by
    rw [responds, respond_world, beside]
  have started := Process.carriedTo_start application
    (Execution.operationIn setting .sideBySide root) world
  rw [← final] at started
  have comes := started.encountered (.refl report.world) (beside ▸ done)
  rcases Execution.comes_operationIn sound faithful .sideBySide root knownRoot comes with
    ⟨place, data, executed, shown, rfl, keeps⟩ | ⟨failure, executed, rfl⟩
  · have apart := (Reference.apart_of_executed sound knownRoot ordinary place executed).2.2
    have errors := started.errors
    rw [ready.errors, keeps.recorded] at errors
    refine ⟨place, executed, ?_, ?_⟩
    · have all := place.firsts_encounters [] apart
      rwa [Reference.rising?_of_executed executed, Option.toList_none, List.append_nil,
        ← keeps.same rfl] at all
    · have listed := place.firsts_recorded [] apart
      rw [responds] at answered
      injection answered with same
      rw [← same, ← listed, firsts, ← errors, final, beside]
  · rw [responds] at answered
    exact absurd answered (ne_ok_respond _ _ failure _ response)

/-- The errors of a request are listed in the order in which they were encountered, as long as
nothing deferred is handed over, except that an error yields that failed a place which forbids null:
what was encountered later at or below a place beside that one is listed before it, unless it failed
such a place too, among the same ones. Root fields in turn encounter what they would side by side. -/
theorem held_errors_yield (application : Application σ) (request : Request) (schema : Schema)
    (document : Document) (vars : Variables) (synchronous : Bool) (operation : Operation)
    (root : TypeId) (world : World σ) (report : Report σ) (response : Response)
    (checked : schema.check = .ok ()) (strict : schema.assumeValid = false)
    (chosen : document.choose request.operationName = .ok operation)
    (rooted : rootType schema operation = .ok root) (ready : world.Ready)
    (executed : report
      = request.executeWith application schema document vars synchronous world)
    (plain : schema.WritesPlain report.world.account)
    (ordinary : report.world.account.Ordinary request.root)
    (direct : ∀ ticket, ¬ report.world.HandedOver ticket)
    (answered : report.outcome = .ok response) :
    let setting : Setting := ⟨request.environment schema document operation vars, synchronous⟩
    let encountered := firsts ((Process.encounters application
      (Execution.operationIn setting .sideBySide root) world).map Encounter.error)
    ∃ place, Reference.executed setting report.world.account root (.ok place)
      ∧ encountered = place.errors []
      ∧ response.errors.Perm encountered
      ∧ ∀ earlier later, [earlier, later].Sublist encountered →
          ([earlier, later].Sublist response.errors ↔ ¬ earlier.YieldsTo place.held later) := by
  intro setting encountered
  rw [executeWith_eq application request vars synchronous world checked chosen rooted] at executed
  have sound : Sound setting.schema setting.schema.Knows := Schema.sound_of_check checked strict
  have knownRoot : setting.schema.Knows root := Schema.knows_root checked strict rooted
  rcases listed_of_carryOut application operation.kind.rootOrder root sound knownRoot world ready report
    executed plain ordinary direct response answered with ⟨place, placed, met, listed⟩
  have fits := (Reference.apart_of_executed sound knownRoot ordinary place placed).1
  have keyed := Reference.keyed_of_executed sound knownRoot ordinary place placed
  have meets : encountered = place.errors [] := met
  have held : place.held? = none := by
    rcases placed with ⟨error, _, rfl⟩ | ⟨content, _, rfl⟩ <;> rfl
  have whole := place.perm_errors []
  rw [held, Option.toList_none, List.append_nil] at whole
  rw [meets, listed]
  exact ⟨place, placed, rfl, whole, fun earlier later => place.listed_iff keyed fits⟩

end Request

/-- A query for a field that is never null and, after it, one that may be. -/
def Operation.paired : Operation where
  start := 0
  kind := .query
  name := none
  variableNodes := []
  directives := []
  selections := [.field 2 none "a" [] []
    [.field 6 none "b" [] [] [.field 10 none "__typename" [] [] []],
      .field 23 none "a" [] [] [.field 27 none "__typename" [] [] []]]]

namespace Request

/-- The paired query, where both fields fail. -/
def paired : Report Nat :=
  ({} : Request).executeWith Application.faltering Schema.guarded ⟨[], [.operation .paired]⟩ [] false
    { state := 1 }

theorem paired_eq : paired = carryOut Application.faltering false
    (Execution.operationIn
      ⟨({} : Request).environment Schema.guarded ⟨[], [.operation .paired]⟩ .paired [], false⟩
      .sideBySide (.declared 0)) { state := 1 } :=
  executeWith_eq _ _ _ _ _ Schema.check_guarded rfl rfl

set_option maxRecDepth 10000 in
theorem isPlain_paired (event : Event) (saw : paired.world.Saw event) :
    event.isPlain = true ∧ event.hands = [] := by
  rcases saw with ⟨time, member⟩
  have all : paired.world.past.all (fun entry => entry.2.isPlain && entry.2.hands.isEmpty) = true := by
    rw [paired_eq]
    cbv
  have here := List.all_eq_true.1 all _ member
  rwa [Bool.and_eq_true, List.isEmpty_iff] at here

theorem ordinary_paired : paired.world.account.Ordinary .null :=
  World.ordinary_of_isPlain paired.world fun event saw => (isPlain_paired event saw).1

theorem writesPlain_paired : Schema.guarded.WritesPlain paired.world.account := by
  refine World.writesPlain_of_isPlain paired.world (fun event saw => (isPlain_paired event saw).1)
    fun leaf values body => ?_
  rcases leaf with _ | _ | _ <;> cases body

theorem direct_paired (ticket : Nat) : ¬ paired.world.HandedOver ticket := by
  rintro ⟨event, saw, handed⟩
  rw [(isPlain_paired event saw).2] at handed
  cases handed

set_option maxRecDepth 10000 in
theorem answered_paired : ∃ response, paired.outcome = .ok response
    ∧ response.errors.map (·.path) = [[.name "a", .name "a"], [.name "a", .name "b"]] := by
  have answered : paired.outcome.toOption.any (fun response =>
      response.errors.map (·.path) == [[.name "a", .name "a"], [.name "a", .name "b"]]) = true := by
    rw [paired_eq]
    cbv
  rcases (Option.any_eq_true _ _).1 answered with ⟨response, found, same⟩
  refine ⟨response, ?_, by simpa using same⟩
  cases outcome : paired.outcome with
  | ok other =>
      rw [outcome] at found
      cases found
      rfl
  | error refusal =>
      rw [outcome] at found
      cases found

set_option maxRecDepth 10000 in
theorem errors_of_paired_fields :
    ∃ response, paired.outcome = .ok response
      ∧ paired.world.account.Ordinary .null
      ∧ Schema.guarded.WritesPlain paired.world.account
      ∧ (∀ ticket, ¬ paired.world.HandedOver ticket)
      ∧ let setting : Setting :=
          ⟨({} : Request).environment Schema.guarded ⟨[], [.operation .paired]⟩ .paired [], false⟩
        let encountered := firsts ((Process.encounters Application.faltering
          (Execution.operationIn setting .sideBySide (.declared 0)) { state := 1 }).map
            Encounter.error)
        ∃ place, Reference.executed setting paired.world.account (.declared 0) (.ok place)
          ∧ encountered = place.errors []
          ∧ response.errors.Perm encountered
          ∧ ∀ earlier later, [earlier, later].Sublist encountered →
              ([earlier, later].Sublist response.errors ↔ ¬ earlier.YieldsTo place.held later) := by
  rcases answered_paired with ⟨response, answered, _⟩
  exact ⟨response, answered, ordinary_paired, writesPlain_paired, direct_paired,
    held_errors_yield Application.faltering {} Schema.guarded ⟨[], [.operation .paired]⟩ [] false
      .paired (.declared 0) { state := 1 } paired response Schema.check_guarded rfl rfl rfl (.new 1)
      rfl writesPlain_paired ordinary_paired direct_paired answered⟩

set_option maxRecDepth 10000 in
/-- The field that is never null fails first, and its error is listed last. -/
theorem later_error_overtakes :
    Schema.guarded.check = .ok () ∧ Schema.guarded.assumeValid = false
      ∧ paired.world.account.Ordinary .null
      ∧ Schema.guarded.WritesPlain paired.world.account
      ∧ (∀ ticket, ¬ paired.world.HandedOver ticket)
      ∧ (firsts ((Process.encounters Application.faltering
          (Execution.operationIn
            ⟨({} : Request).environment Schema.guarded ⟨[], [.operation .paired]⟩ .paired [], false⟩
            .sideBySide (.declared 0)) { state := 1 }).map Encounter.error)).map (·.path)
        = [[.name "a", .name "b"], [.name "a", .name "a"]]
      ∧ ∃ response, paired.outcome = .ok response
        ∧ response.errors.map (·.path) = [[.name "a", .name "a"], [.name "a", .name "b"]] := by
  refine ⟨Schema.check_guarded, rfl, ordinary_paired, writesPlain_paired, direct_paired, ?_,
    answered_paired⟩
  cbv

end Request

end GraphQL
