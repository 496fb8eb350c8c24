import GraphQL.Execution.Process
import Mathlib.Data.List.Forall2

/-!
What a program comes to, whatever the order in which its parts run. An account lists what the
application answered; under an account a program comes to an outcome and encounters errors on the way.
-/

namespace GraphQL

/-- What the application answered, what deferred results came to, and which selections were
remembered. -/
structure Account where
  called : Call → Reply → Prop
  drained : Nat → List Value → Option Failure → Prop
  came : Nat → Reply → Prop
  remembered : SubfieldKey → Collected → Prop

namespace Account

/-- The values of all deferred results, or the failure of one of them. -/
def Awaited (account : Account) (tickets : List Nat) : Except Failure (List Value) → Prop
  | .ok values => List.Forall₂ (fun ticket value => account.came ticket (.ok value)) tickets values
  | .error failure => ∃ ticket ∈ tickets, account.came ticket (.error failure)

/-- What may be found where a key is looked up. -/
def Consulted (account : Account) (key : SubfieldKey) : Option Collected → Prop
  | none => True
  | some fields => ∃ known, account.remembered known fields ∧ known.equals key = true

end Account

/-- The results that an action can have. -/
def Action.Yields (account : Account) : Action α → Except Failure α → Prop
  | .done result, found => found = result
  | .call asked next, found => ∃ reply, account.called asked reply ∧ (next reply).Yields account found

namespace Action

variable {α β : Type} {account : Account}

theorem yields_andThen (action : Action α) (next : Except Failure α → Action β)
    (result : Except Failure β) (yields : (action.andThen next).Yields account result) :
    ∃ middle, action.Yields account middle ∧ (next middle).Yields account result := by
  induction action with
  | done middle => exact ⟨middle, rfl, yields⟩
  | call asked reply ih =>
      rcases yields with ⟨answer, called, rest⟩
      rcases ih answer rest with ⟨middle, first, second⟩
      exact ⟨middle, ⟨answer, called, first⟩, second⟩

theorem yields_bind (action : Action α) (next : α → Action β) (value : β)
    (yields : (action >>= next).Yields account (.ok value)) :
    ∃ middle, action.Yields account (.ok middle) ∧ (next middle).Yields account (.ok value) := by
  rcases yields_andThen action _ _ yields with ⟨middle, first, second⟩
  cases middle with
  | ok found => exact ⟨found, first, second⟩
  | error failure => cases second

theorem yields_pure (value found : α)
    (yields : (pure value : Action α).Yields account (.ok found)) : found = value := by
  cases yields
  rfl

end Action

def Effect.errors : Effect → List ResponseError
  | .record error => [error]
  | _ => []

/-- How an error is encountered while a program runs: a part that is joined with others ends with it,
or it is recorded. -/
inductive Encounter where
  | ended (error : ResponseError)
  | recorded (error : ResponseError)

def Effect.encounters : Effect → List Encounter
  | .record error => [.recorded error]
  | _ => []

def Outcome.encounters : Outcome → List Encounter
  | .error (.response error) => [.ended error]
  | _ => []

namespace Encounter

def error : Encounter → ResponseError
  | ended error | recorded error => error

def recorded? : Encounter → Option ResponseError
  | ended _ => none
  | recorded error => some error

/-- The errors that are recorded, as often as they are. -/
def recordedIn (encounters : List Encounter) : List ResponseError := encounters.filterMap recorded?

@[simp] theorem recordedIn_nil : recordedIn [] = [] := rfl

@[simp] theorem recordedIn_append (first second : List Encounter) :
    recordedIn (first ++ second) = recordedIn first ++ recordedIn second :=
  List.filterMap_append

@[simp] theorem recordedIn_effect (effect : Effect) :
    recordedIn effect.encounters = effect.errors := by
  cases effect <;> rfl

@[simp] theorem recordedIn_outcome (outcome : Outcome) : recordedIn outcome.encounters = [] := by
  rcases outcome with failure | value
  · cases failure <;> rfl
  · rfl

@[simp] theorem recordedIn_outcomes (outcomes : List Outcome) :
    recordedIn (outcomes.flatMap Outcome.encounters) = [] := by
  induction outcomes with
  | nil => rfl
  | cons outcome rest ih => rw [List.flatMap_cons, recordedIn_append, ih, recordedIn_outcome]; rfl

@[simp] theorem recordedIn_recorded (errors : List ResponseError) :
    recordedIn (errors.map recorded) = errors := by
  rw [recordedIn, List.filterMap_map]
  exact List.filterMap_some

@[simp] theorem map_error_recorded (errors : List ResponseError) :
    (errors.map recorded).map error = errors := by
  rw [List.map_map]
  exact List.map_id errors

@[simp] theorem map_error_ended (errors : List ResponseError) :
    (errors.map ended).map error = errors := by
  rw [List.map_map]
  exact List.map_id errors

@[simp] theorem recordedIn_ended (errors : List ResponseError) :
    recordedIn (errors.map ended) = [] := by
  rw [recordedIn, List.filterMap_map]
  exact List.filterMap_eq_nil_iff.2 fun _ _ => rfl

end Encounter

namespace Program

mutual

/-- The outcomes that a program can come to, each with the errors encountered on the way. A join that
is given up leaves open what was encountered before. -/
def Comes (account : Account) : Program → Outcome → List Encounter → Prop
  | .done result, outcome, encounters => outcome = result ∧ encounters = []
  | .call asked next, outcome, encounters =>
    ∃ reply, account.called asked reply ∧ (next reply).Comes account outcome encounters
  | .perform effect next, outcome, encounters =>
    ∃ rest, encounters = effect.encounters ++ rest ∧ next.Comes account outcome rest
  | .consult key next, outcome, encounters =>
    ∃ found, account.Consulted key found ∧ (next found).Comes account outcome encounters
  | .drain handle next, outcome, encounters =>
    ∃ items fault, account.drained handle items fault
      ∧ (next items fault).Comes account outcome encounters
  | .wait tickets next, outcome, encounters =>
    ∃ result, account.Awaited tickets result ∧ (next result).Comes account outcome encounters
  | .join children next, outcome, encounters =>
    (∃ outcomes part rest, ComesEach account children outcomes part
      ∧ (next (.ok outcomes)).Comes account outcome rest ∧ encounters = part ++ rest)
    ∨ ∃ failure part rest, failure.isUrgent = true ∧ ComesSome account children failure
      ∧ (next (.error failure)).Comes account outcome rest ∧ encounters = part ++ rest

def ComesEach (account : Account) : List Program → List Outcome → List Encounter → Prop
  | [], outcomes, encounters => outcomes = [] ∧ encounters = []
  | program :: rest, outcomes, encounters =>
    ∃ outcome others part later, outcomes = outcome :: others
      ∧ encounters = part ++ (outcome.encounters ++ later)
      ∧ program.Comes account outcome part ∧ ComesEach account rest others later

/-- One of the programs can fail in the given way. -/
def ComesSome (account : Account) : List Program → Failure → Prop
  | [], _ => False
  | program :: rest, failure =>
    (∃ part, program.Comes account (.error failure) part) ∨ ComesSome account rest failure

end

variable {account : Account} {outcome : Outcome} {encounters : List Encounter}

theorem comes_done (result : Outcome)
    (comes : (done result).Comes account outcome encounters) :
    outcome = result ∧ encounters = [] := by
  simpa only [Comes] using comes

theorem comes_fail (failure : Failure)
    (comes : (fail failure).Comes account outcome encounters) :
    outcome = .error failure ∧ encounters = [] := comes_done _ comes

theorem comes_succeed (value : Value)
    (comes : (succeed value).Comes account outcome encounters) :
    outcome = .ok value ∧ encounters = [] := comes_done _ comes

/-- A program followed by another comes to what the other makes of its outcome. -/
theorem comes_andThen {encounters : List Encounter} (program : Program)
    (next : Outcome → Program)
    (comes : (program.andThen next).Comes account outcome encounters) :
    ∃ middle first second, program.Comes account middle first
      ∧ (next middle).Comes account outcome second ∧ encounters = first ++ second := by
  match program with
  | done result =>
      exact ⟨result, [], encounters, by simp only [Comes, and_self], comes, rfl⟩
  | call asked reply =>
      simp only [andThen, Comes] at comes ⊢
      rcases comes with ⟨answer, called, rest⟩
      rcases comes_andThen (reply answer) next rest with ⟨middle, first, second, left, right, split⟩
      exact ⟨middle, first, second, ⟨answer, called, left⟩, right, split⟩
  | perform effect rest =>
      simp only [andThen, Comes] at comes ⊢
      rcases comes with ⟨later, split, comes⟩
      rcases comes_andThen rest next comes with ⟨middle, first, second, left, right, splitLater⟩
      refine ⟨middle, effect.encounters ++ first, second, ⟨first, rfl, left⟩, right, ?_⟩
      rw [split, splitLater, List.append_assoc]
  | consult key rest =>
      simp only [andThen, Comes] at comes ⊢
      rcases comes with ⟨found, consulted, comes⟩
      rcases comes_andThen (rest found) next comes with ⟨middle, first, second, left, right, split⟩
      exact ⟨middle, first, second, ⟨found, consulted, left⟩, right, split⟩
  | drain handle rest =>
      simp only [andThen, Comes] at comes ⊢
      rcases comes with ⟨items, fault, drained, comes⟩
      rcases comes_andThen (rest items fault) next comes with
        ⟨middle, first, second, left, right, split⟩
      exact ⟨middle, first, second, ⟨items, fault, drained, left⟩, right, split⟩
  | wait tickets rest =>
      simp only [andThen, Comes] at comes ⊢
      rcases comes with ⟨result, awaited, comes⟩
      rcases comes_andThen (rest result) next comes with ⟨middle, first, second, left, right, split⟩
      exact ⟨middle, first, second, ⟨result, awaited, left⟩, right, split⟩
  | join children rest =>
      simp only [andThen, Comes] at comes ⊢
      rcases comes with ⟨outcomes, part, later, each, comes, split⟩ |
        ⟨failure, part, later, urgent, some_, comes, split⟩
      · rcases comes_andThen (rest (.ok outcomes)) next comes with
          ⟨middle, first, second, left, right, splitLater⟩
        refine ⟨middle, part ++ first, second, .inl ⟨outcomes, part, first, each, left, rfl⟩,
          right, ?_⟩
        rw [split, splitLater, List.append_assoc]
      · rcases comes_andThen (rest (.error failure)) next comes with
          ⟨middle, first, second, left, right, splitLater⟩
        refine ⟨middle, part ++ first, second,
          .inr ⟨failure, part, first, urgent, some_, left, rfl⟩, right, ?_⟩
        rw [split, splitLater, List.append_assoc]

theorem comes_act {α : Type} (action : Action α) (next : Except Failure α → Program)
    (comes : (act action next).Comes account outcome encounters) :
    ∃ result, action.Yields account result ∧ (next result).Comes account outcome encounters := by
  induction action with
  | done result => exact ⟨result, rfl, comes⟩
  | call asked reply ih =>
      simp only [act, Comes] at comes
      rcases comes with ⟨answer, called, rest⟩
      rcases ih answer rest with ⟨result, yields, comesNext⟩
      exact ⟨result, ⟨answer, called, yields⟩, comesNext⟩

theorem comes_await (ticket : Nat) (next : Outcome → Program)
    (comes : (await ticket next).Comes account outcome encounters) :
    ∃ reply, account.came ticket reply ∧ (next reply).Comes account outcome encounters := by
  simp only [await, Comes] at comes
  rcases comes with ⟨result, awaited, rest⟩
  cases result with
  | error failure =>
      rcases awaited with ⟨found, member, came⟩
      rw [List.mem_singleton.1 member] at came
      exact ⟨.error failure, came, rest⟩
  | ok values =>
      cases awaited with
      | cons came others =>
          cases others
          exact ⟨.ok _, came, rest⟩

end Program

end GraphQL
