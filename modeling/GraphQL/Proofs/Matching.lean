import GraphQL.Proofs.Preparing
import GraphQL.Proofs.Reference

/-!
Computations that match. Two runs of an operation, under two accounts, need not meet the same values
and failures; their results match if failures are reported alike and values stand for each other.
-/

namespace GraphQL

/-- Failures of which a position makes the same error, or which both end everything. -/
def Failure.Alike (left right : Failure) : Prop :=
  (left.halts = true ∧ right.halts = true)
    ∨ (left.halts = false ∧ right.halts = false
      ∧ ∀ nodes path, left.locate nodes path = right.locate nodes path)

namespace Failure.Alike

theorem refl (failure : Failure) : failure.Alike failure := by
  cases halts : failure.halts with
  | true => exact .inl ⟨halts, halts⟩
  | false => exact .inr ⟨halts, halts, fun _ _ => rfl⟩

theorem halts {left right : Failure} (alike : left.Alike right) : left.halts = right.halts := by
  rcases alike with ⟨first, second⟩ | ⟨first, second, _⟩
  · rw [first, second]
  · rw [first, second]

end Failure.Alike

/-- Two results that are failures alike, or values that stand for each other. -/
inductive Matched {α β : Type} (stands : α → β → Prop) : Except Failure α → Except Failure β → Prop
  | failed {left right : Failure} : left.Alike right → Matched stands (.error left) (.error right)
  | given {left : α} {right : β} : stands left right → Matched stands (.ok left) (.ok right)

namespace Matched

variable {α β : Type} {stands : α → β → Prop}

theorem of_eq {result other : Except Failure α} (same : result = other) :
    Matched Eq result other := by
  rw [same]
  cases other with
  | error failure => exact .failed (.refl failure)
  | ok value => exact .given rfl

theorem ok_inv {left : α} {right : β} (matched : Matched stands (.ok left) (.ok right)) :
    stands left right := by
  cases matched with
  | given stands => exact stands

theorem error_inv {left right : Failure}
    (matched : Matched stands (.error left) (.error right)) : left.Alike right := by
  cases matched with
  | failed alike => exact alike

theorem not_ok_error {left : α} {right : Failure}
    (matched : Matched stands (.ok left) (.error right)) : False := by
  cases matched

theorem not_error_ok {left : Failure} {right : β}
    (matched : Matched stands (.error left) (.ok right)) : False := by
  cases matched

end Matched

namespace Results

variable {α β γ δ : Type} {stands : α → β → Prop} {follows : γ → δ → Prop}

/-- Whatever two computations come to matches. -/
def Match (stands : α → β → Prop) (first : Results α) (second : Results β) : Prop :=
  ∀ left right, first left → second right → Matched stands left right

theorem match_pure {left : α} {right : β} (related : stands left right) :
    Match stands (pure left) (pure right) := by
  rintro _ _ rfl rfl
  exact .given related

theorem match_fail {left right : Failure} (alike : left.Alike right) :
    Match stands (fail left) (fail right) := by
  rintro _ _ rfl rfl
  exact .failed alike

theorem match_fail_same (failure : Failure) : Match stands (fail failure) (fail failure) :=
  match_fail (.refl failure)

theorem match_bind {first : Results α} {second : Results β} {next : α → Results γ}
    {next' : β → Results δ} (before : Match stands first second)
    (after : ∀ left right, first (.ok left) → second (.ok right) → stands left right →
      Match follows (next left) (next' right)) :
    Match follows (first.bind next) (second.bind next') := by
  intro left right found found'
  rcases found with ⟨failure, failed, rfl⟩ | ⟨value, given, found⟩
  · rcases found' with ⟨failure', failed', rfl⟩ | ⟨value', given', _⟩
    · exact .failed (before _ _ failed failed').error_inv
    · exact (before _ _ failed given').not_error_ok.elim
  · rcases found' with ⟨failure', failed', _⟩ | ⟨value', given', found'⟩
    · exact (before _ _ given failed').not_ok_error.elim
    · exact after value value' given given' (before _ _ given given').ok_inv left right found found'

theorem match_placed {first second : Results Content} (type : TypeRef) (nodes : List FieldNode)
    (path : ResponsePath) (same : Match Eq first second) :
    Match Eq (first.placed type nodes path) (second.placed type nodes path) := by
  intro left right found found'
  cases left with
  | error failure =>
      rcases found with ⟨failed, halts⟩
      cases right with
      | error failure' => exact .failed (same _ _ failed found'.1).error_inv
      | ok place =>
          rcases found' with ⟨failure', failed', goesOn, _⟩ | ⟨content, given, _⟩
          · have agree := (same _ _ failed failed').error_inv.halts
            rw [halts, goesOn] at agree
            cases agree
          · exact (same _ _ failed given).not_error_ok.elim
  | ok place =>
      rcases found with ⟨failure, failed, goesOn, rfl⟩ | ⟨content, given, rfl⟩
      · cases right with
        | error failure' =>
            have agree := (same _ _ failed found'.1).error_inv.halts
            rw [found'.2, goesOn] at agree
            cases agree
        | ok place' =>
            rcases found' with ⟨failure', failed', _, rfl⟩ | ⟨content, given, _⟩
            · rcases (same _ _ failed failed').error_inv with ⟨halts, _⟩ | ⟨_, _, located⟩
              · rw [goesOn] at halts
                cases halts
              · rw [located]
                exact .given rfl
            · exact (same _ _ failed given).not_error_ok.elim
      · cases right with
        | error failure' => exact (same _ _ given found'.1).not_ok_error.elim
        | ok place' =>
            rcases found' with ⟨failure', failed', _, _⟩ | ⟨content', given', rfl⟩
            · exact (same _ _ given failed').not_ok_error.elim
            · rw [(same _ _ given given').ok_inv]
              exact .given rfl

theorem forall₂_of_match {firsts : List (Results α)} {seconds : List (Results β)}
    (each : List.Forall₂ (Match stands) firsts seconds) {values : List α} {values' : List β}
    (given : List.Forall₂ (fun results value => results (.ok value)) firsts values)
    (given' : List.Forall₂ (fun results value => results (.ok value)) seconds values') :
    List.Forall₂ stands values values' := by
  induction each generalizing values values' with
  | nil =>
      cases given
      cases given'
      exact .nil
  | cons first _ ih =>
      cases given with
      | cons here later =>
          cases given' with
          | cons here' later' => exact .cons (first _ _ here here').ok_inv (ih later later')

theorem not_some_failed {firsts : List (Results α)} {seconds : List (Results β)}
    (each : List.Forall₂ (Match stands) firsts seconds) {values : List α} {failure : Failure}
    (given : List.Forall₂ (fun results value => results (.ok value)) firsts values)
    (failed : ∃ results ∈ seconds, results (.error failure)) : False := by
  induction each generalizing values with
  | nil =>
      rcases failed with ⟨_, member, _⟩
      cases member
  | cons first _ ih =>
      cases given with
      | cons here later =>
          rcases failed with ⟨results, member, failed⟩
          rcases List.mem_cons.1 member with rfl | inside
          · exact (first _ _ here failed).not_ok_error
          · exact ih later ⟨results, inside, failed⟩

theorem Match.flip {first : Results α} {second : Results β} (matched : Match stands first second) :
    Match (Function.swap stands) second first := by
  intro right left found' found
  cases matched left right found found' with
  | given related => exact .given related
  | failed alike =>
      refine .failed ?_
      rcases alike with ⟨one, two⟩ | ⟨one, two, located⟩
      · exact .inl ⟨two, one⟩
      · exact .inr ⟨two, one, fun nodes path => (located nodes path).symm⟩

/-- Computations that match each on its own match together, if only what ends everything fails. -/
theorem match_together {firsts : List (Results α)} {seconds : List (Results β)}
    (each : List.Forall₂ (Match stands) firsts seconds)
    (halting : ∀ results ∈ firsts, Halting results)
    (halting' : ∀ results ∈ seconds, Halting results) :
    Match (List.Forall₂ stands) (together firsts) (together seconds) := by
  intro left right found found'
  cases left with
  | ok values =>
      cases right with
      | ok values' => exact .given (forall₂_of_match each found found')
      | error failure => exact (not_some_failed each found found').elim
  | error failure =>
      cases right with
      | ok values' =>
          have flipped : List.Forall₂ (Match (Function.swap stands)) seconds firsts :=
            each.flip.imp fun _ _ matched => Match.flip matched
          exact (not_some_failed flipped found' found).elim
      | error failure' =>
          rcases found with ⟨results, member, failed⟩
          rcases found' with ⟨results', member', failed'⟩
          exact .failed (.inl ⟨halting _ member _ failed, halting' _ member' _ failed'⟩)

end Results

/-- An action that calls nothing for a field yields the same in two runs, if such calls are answered
the same in both. -/
theorem Action.same_of_aside {α : Type} {first second : Account}
    (same : ∀ asked reply reply', Aside asked → first.called asked reply →
      second.called asked reply' → reply = reply')
    (action : Action α) (aside : action.StaysAside) {result result' : Except Failure α}
    (yields : action.Yields first result) (yields' : action.Yields second result') :
    result = result' := by
  induction action with
  | done found =>
      rw [Yields] at yields yields'
      rw [yields, yields']
  | call asked next ih =>
      rcases yields with ⟨reply, called, later⟩
      rcases yields' with ⟨reply', called', later'⟩
      cases same asked reply reply' aside.1 called called'
      exact ih reply (aside.2 reply fun _ _ => trivial) later later'

end GraphQL
