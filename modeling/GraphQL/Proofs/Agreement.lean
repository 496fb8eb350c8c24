import GraphQL.Proofs.Encounters
import GraphQL.Proofs.Reference

/-!
How programs agree with what they mean. A program meets a computation if each outcome that it comes
to shows a content, or a place, that the computation can have, with the errors that are encountered
there.
-/

namespace GraphQL

/-- How an outcome shows data: as a value, or by the error that goes on to the place around. -/
inductive Shown (data? : Option Value) (rising? : Option ResponseError) : Outcome → Prop where
  | whole {value : Value} : data? = some value → Failure.ofValue? value = none → rising? = none →
    Shown data? rising? (.ok value)
  | nulled {error : ResponseError} : data? = none → error.path ≠ [] → rising? = some error →
    Shown data? rising? (.error (.response error))

def Place.Shows (place : Place) (outcome : Outcome) (encountered : List Encounter) : Prop :=
  Shown place.data? place.rising? outcome ∧ encountered = place.encounters

/-- A leaf that is filled is not null. -/
def Content.Solid : Content → Prop
  | .leaf value => value.isNull = false
  | _ => True

def Content.Shows (content : Content) (outcome : Outcome) (encountered : List Encounter) : Prop :=
  content.Solid ∧ Shown content.data? content.rising? outcome ∧ encountered = content.encounters

namespace Program

/-- Every outcome of a program shows a result that the computation can have. -/
def Meets {α : Type} (account : Account) (results : Results α)
    (shows_ : α → Outcome → List Encounter → Prop) (program : Program) : Prop :=
  ∀ outcome encountered, program.Comes account outcome encountered →
    (∃ value, results (.ok value) ∧ shows_ value outcome encountered)
    ∨ ∃ failure, results (.error failure) ∧ outcome = .error failure
      ∧ (failure.halts = false → encountered = [])

/-- A program does a computation first, encounters nothing, and goes on from the result. -/
def Runs {α : Type} (account : Account) (first : Results α) (program : Program)
    (next : Except Failure α → Program) : Prop :=
  ∀ outcome encountered, program.Comes account outcome encountered →
    ∃ result, first result ∧ (next result).Comes account outcome encountered

variable {account : Account} {α β : Type}

theorem meets_fail {results : Results α} {shows_ : α → Outcome → List Encounter → Prop}
    (failure : Failure) (found : results (.error failure)) :
    (fail failure).Meets account results shows_ := by
  intro outcome encountered comes
  rcases comes_fail failure comes with ⟨rfl, rfl⟩
  exact .inr ⟨failure, found, rfl, fun _ => rfl⟩

theorem meets_succeed {results : Results α} {shows_ : α → Outcome → List Encounter → Prop}
    (result : α) (value : Value) (found : results (.ok result)) (shown : shows_ result (.ok value) []) :
    (succeed value).Meets account results shows_ := by
  intro outcome encountered comes
  rcases comes_succeed value comes with ⟨rfl, rfl⟩
  exact .inl ⟨result, found, shown⟩

theorem comes_silent {effect : Effect} {program : Program} {outcome : Outcome}
    {encountered : List Encounter} (silent : effect.encounters = [])
    (comes : (perform effect program).Comes account outcome encountered) :
    program.Comes account outcome encountered := by
  simp only [Comes, silent, List.nil_append] at comes
  rcases comes with ⟨rest, rfl, comes⟩
  exact comes

theorem runs_silent {results : Results α} {effect : Effect} {program : Program}
    {next : Except Failure α → Program} (silent : effect.encounters = [])
    (runs : Runs account results program next) :
    Runs account results (perform effect program) next :=
  fun outcome encountered comes => runs outcome encountered (comes_silent silent comes)

theorem meets_silent {results : Results α} {shows_ : α → Outcome → List Encounter → Prop}
    {effect : Effect} {program : Program} (silent : effect.encounters = [])
    (meets : program.Meets account results shows_) :
    (perform effect program).Meets account results shows_ :=
  fun outcome encountered comes => meets outcome encountered (comes_silent silent comes)

/-- A program in steps meets a computation in steps. -/
theorem meets_of_runs {first : Results α} {second : α → Results β}
    {shows_ : β → Outcome → List Encounter → Prop} {program : Program}
    {next : Except Failure α → Program} (runs : Runs account first program next)
    (fails : ∀ failure, next (.error failure) = fail failure)
    (each : ∀ value, first (.ok value) → (next (.ok value)).Meets account (second value) shows_) :
    program.Meets account (first.bind second) shows_ := by
  intro outcome encountered comes
  rcases runs outcome encountered comes with ⟨result, found, comes⟩
  cases result with
  | error failure =>
      rw [fails] at comes
      rcases comes_fail failure comes with ⟨rfl, rfl⟩
      exact .inr ⟨failure, .inl ⟨failure, found, rfl⟩, rfl, fun _ => rfl⟩
  | ok value =>
      rcases each value found outcome encountered comes with ⟨shown, later, shows_⟩ |
        ⟨failure, later, same, none_⟩
      · exact .inl ⟨shown, .inr ⟨value, found, later⟩, shows_⟩
      · exact .inr ⟨failure, .inr ⟨value, found, later⟩, same, none_⟩

theorem runs_act (action : Action α) (next : Except Failure α → Program) :
    Runs account (action.Yields account) (act action next) next :=
  fun _ _ comes => comes_act action next comes

theorem comes_closing (tickets : List Nat) (next : Program) {outcome : Outcome}
    {encountered : List Encounter}
    (comes : (closing tickets next).Comes account outcome encountered) :
    next.Comes account outcome encountered := by
  unfold closing at comes
  split at comes
  · exact comes
  · exact comes_silent rfl comes

theorem runs_receive (setting : Setting) (value : Value) (next : Outcome → Program) :
    Runs account (Reference.handed setting account value) (receive setting value next) next := by
  intro outcome encountered comes
  unfold receive at comes
  split at comes
  · next ticket =>
      simp only [Reference.handed]
      split at comes
      · next halted =>
          rw [if_pos halted]
          exact ⟨_, rfl, comes_closing _ _ comes⟩
      · next waits =>
          rw [if_neg waits]
          exact comes_await ticket next comes
  · next present =>
      refine ⟨.ok value, ?_, comes⟩
      unfold Reference.handed
      split
      · next ticket => exact absurd rfl (present ticket)
      · rfl

theorem runs_call (slot : Slot) (asked : Nat → Call) (next : Reply → Program) :
    Runs account (Reference.called account slot asked) (slot.call asked next) next := by
  intro outcome encountered comes
  cases slot with
  | function id =>
      simp only [Slot.call, Comes] at comes
      exact comes
  | other value => exact ⟨_, rfl, comes⟩
  | absent => exact ⟨_, rfl, comes⟩

end Program

theorem Failure.locate_path_ne_nil (failure : Failure) (nodes : List Nat) (path : List PathKey)
    (some_ : path ≠ []) : (failure.locate nodes path).path ≠ [] := by
  unfold locate
  split
  · split
    · next located => exact located
    · exact some_
  · exact some_

theorem Failure.locate_located (error : ResponseError) (nodes : List Nat) (path : List PathKey)
    (located : error.path ≠ []) : (response error).locate nodes path = error := by
  simp only [locate]
  rw [if_pos located]

/-- A settled program shows its place. -/
theorem Program.meets_settle {account : Account} {results : Results Content} (program : Program)
    (type : TypeRef) (nodes : List FieldNode) (path : ResponsePath)
    (meets : program.Meets account results Content.Shows) :
    (program.andThen (settle type nodes path)).Meets account (results.placed type nodes path)
      Place.Shows := by
  intro outcome encountered comes
  rcases comes_andThen program _ comes with ⟨middle, before, after, first, second, rfl⟩
  rcases meets middle before first with ⟨content, found, _, shown, rfl⟩ | ⟨failure, found, rfl, silent⟩
  · cases shown with
    | whole data plain rising =>
        rcases comes_succeed _ second with ⟨rfl, rfl⟩
        refine .inl ⟨.filled type.isNonNull content, .inr ⟨content, found, rfl⟩, .whole ?_ plain ?_, ?_⟩
        · rw [Place.data?, data]
        · rw [Place.rising?, rising, ite_self]
        · rw [Place.encounters, rising, Option.toList_none, List.map_nil, ite_self]
    | nulled data located rising =>
        rename_i error
        have unhandled : ((Failure.response error).isFatal
            || decide ((Failure.response error).kind = .asynchronous)) = false := rfl
        simp only [settle, unhandled, Bool.false_eq_true, if_false,
          Failure.locate_located error _ _ located] at second
        refine .inl ⟨.filled type.isNonNull content, .inr ⟨content, found, rfl⟩, ?_⟩
        split at second
        · next strict =>
            rcases comes_fail _ second with ⟨rfl, rfl⟩
            refine ⟨.nulled ?_ located ?_, ?_⟩
            · simp only [Place.data?, data, strict, if_true]
            · simp only [Place.rising?, rising, strict, if_true]
            · simp only [Place.encounters, strict, if_true]
        · next lax =>
            simp only [Comes, succeed, Effect.encounters] at second
            rcases second with ⟨rest, rfl, rfl, rfl⟩
            refine ⟨.whole ?_ rfl ?_, ?_⟩
            · simp only [Place.data?, data, lax, Bool.false_eq_true, if_false]
            · simp only [Place.rising?, lax, Bool.false_eq_true, if_false]
            · simp only [Place.encounters, rising, lax, Bool.false_eq_true, if_false, List.append_nil,
                Option.toList_some, List.map_cons, List.map_nil]
  -- The content has failed: the failure ends everything, or it is placed here.
  · simp only [settle] at second
    split at second
    · next halted =>
        rcases comes_fail _ second with ⟨rfl, rfl⟩
        exact .inr ⟨failure, ⟨found, halted⟩, rfl,
          fun goesOn => by rw [show failure.halts = true from halted] at goesOn; cases goesOn⟩
    · next handled =>
        have goesOn : failure.halts = false := Bool.eq_false_iff.2 handled
        rw [silent goesOn] at *
        have failed : results.placed type nodes path (.ok (.failed type.isNonNull
            (failure.locate (nodes.map (·.start)) path.toList))) :=
          .inl ⟨failure, found, goesOn, rfl⟩
        split at second
        · next strict =>
            rcases comes_fail _ second with ⟨rfl, rfl⟩
            refine .inl ⟨_, failed, .nulled ?_ ?_ ?_, ?_⟩
            · simp only [Place.data?, strict, if_true]
            · exact Failure.locate_path_ne_nil _ _ _ path.toList_ne_nil
            · simp only [Place.rising?, strict, if_true]
            · simp only [Place.encounters, strict, if_true, List.append_nil]
        · next lax =>
            simp only [Comes, succeed, Effect.encounters] at second
            rcases second with ⟨rest, rfl, rfl, rfl⟩
            refine .inl ⟨_, failed, .whole ?_ rfl ?_, ?_⟩
            · simp only [Place.data?, lax, Bool.false_eq_true, if_false]
            · simp only [Place.rising?, lax, Bool.false_eq_true, if_false]
            · simp only [Place.encounters, lax, Bool.false_eq_true, if_false, List.append_nil,
                List.nil_append]

end GraphQL
