import GraphQL.Proofs.Agreement

/-!
Siblings that are put together. When every one of them shows its place, the join shows the list or
the object of the places; when one ends everything, so does the join.
-/

namespace GraphQL

/-- A program that settles a place of its own. -/
structure Sibling (account : Account) where
  program : Program
  results : Results Place
  meets : program.Meets account results Place.Shows
  handled : ∀ failure, results (.error failure) → failure.halts = true

/-- Places that are shown one after the other. -/
inductive Place.ShownEach : List Place → List Outcome → List Encounter → Prop where
  | nil : Place.ShownEach [] [] []
  | cons {place : Place} {places : List Place} {outcome : Outcome} {outcomes : List Outcome}
      {part later : List Encounter} :
    place.Shows outcome part → Place.ShownEach places outcomes later →
    Place.ShownEach (place :: places) (outcome :: outcomes) (part ++ (outcome.encounters ++ later))

theorem Place.dataOfAll_cons (place : Place) (places : List Place) :
    Place.dataOfAll (place :: places)
      = place.data?.bind fun value => (Place.dataOfAll places).map (value :: ·) := by
  rw [Place.dataOfAll]
  cases place.data? with
  | none => rfl
  | some value => cases Place.dataOfAll places <;> rfl

theorem Place.ShownEach.summary {places : List Place} {outcomes : List Outcome}
    {encountered : List Encounter} (shown : Place.ShownEach places outcomes encountered) :
    outcomes.filterMap Outcome.failure? = (Place.risings places).map .response
      ∧ (∀ error ∈ Place.risings places, error.path ≠ [])
      ∧ encountered = Place.encountersOfAll places
      ∧ (Place.risings places = [] →
        Place.dataOfAll places = some (outcomes.filterMap Except.toOption))
      ∧ (Place.risings places ≠ [] → Place.dataOfAll places = none) := by
  -- By induction on the siblings, each of which is whole or nulled by an error that goes on.
  induction shown with
  | nil =>
      refine ⟨rfl, ?_, rfl, fun _ => rfl, fun some_ => absurd rfl some_⟩
      intro error member
      cases member
  | cons first _ ih =>
      rename_i place places outcome outcomes part later _
      rcases ih with ⟨failures, located, rfl, clean, nulled⟩
      rcases first with ⟨first, rfl⟩
      cases first with
      | whole data plain none_ =>
          rename_i value
          rw [Place.risings, none_, Option.toList_none, List.nil_append]
          refine ⟨?_, located, ?_, fun none_ => ?_, fun some_ => ?_⟩
          · rw [List.filterMap_cons_none (by exact plain), failures]
          · rw [Place.encountersOfAll, none_]
            rfl
          · rw [Place.dataOfAll_cons, data, clean none_,
              List.filterMap_cons_some (by rfl : Except.toOption (Except.ok value) = some value)]
            rfl
          · rw [Place.dataOfAll_cons, data, nulled some_]
            rfl
      | nulled data located' rises =>
          rename_i error
          rw [Place.risings, rises, Option.toList_some, List.singleton_append]
          refine ⟨?_, List.forall_mem_cons.2 ⟨located', located⟩, ?_, fun none_ => (by cases none_),
            fun _ => ?_⟩
          · rw [List.filterMap_cons_some
              (by rfl : Outcome.failure? (.error (.response error)) = some (.response error)),
              failures]
            rfl
          · rw [Place.encountersOfAll, rises]
            rfl
          · rw [Place.dataOfAll_cons, data]
            rfl

namespace Program

variable {account : Account} {outcome : Outcome} {encountered : List Encounter}

/-- Failures that go up end with the first of them, all encountered, unless one is of another kind. -/
theorem comes_bubble (first : Failure) (failures : List Failure)
    (comes : (bubble first failures).Comes account outcome encountered) :
    (∃ errors : List ResponseError, failures = errors.map .response
        ∧ encountered = errors.map .recorded ∧ outcome = .error first)
      ∨ ∃ failure ∈ failures, failure.isUrgent = true ∧ outcome = .error failure := by
  induction failures generalizing encountered with
  | nil =>
      rcases comes_fail first comes with ⟨rfl, rfl⟩
      exact .inl ⟨[], rfl, rfl, rfl⟩
  | cons failure rest ih =>
      cases failure with
      | response error =>
          simp only [bubble, Comes, Effect.encounters] at comes
          rcases comes with ⟨later, rfl, comes⟩
          rcases ih comes with ⟨errors, rfl, rfl, ended⟩ | ⟨other, member, urgent, ended⟩
          · exact .inl ⟨error :: errors, rfl, rfl, ended⟩
          · exact .inr ⟨other, List.mem_cons_of_mem _ member, urgent, ended⟩
      | _ =>
          rcases comes_fail _ comes with ⟨rfl, rfl⟩
          exact .inr ⟨_, List.mem_cons_self, rfl, rfl⟩

/-- A failed sibling shows an error of the response or ends everything. -/
theorem failure_of_siblings (siblings : List (Sibling account)) (outcomes : List Outcome)
    (each : ComesEach account (siblings.map (·.program)) outcomes encountered) (failure : Failure)
    (member : failure ∈ outcomes.filterMap Outcome.failure?) (urgent : failure.isUrgent = true) :
    ∃ sibling ∈ siblings, sibling.results (.error failure) := by
  induction siblings generalizing outcomes encountered with
  | nil =>
      simp only [List.map_nil, ComesEach] at each
      rw [each.1] at member
      cases member
  | cons sibling rest ih =>
      simp only [List.map_cons, ComesEach] at each
      rcases each with ⟨first, others, part, later, rfl, rfl, comes, each⟩
      rcases List.mem_filterMap.1 member with ⟨found, inside, failed⟩
      rcases List.mem_cons.1 inside with rfl | behind
      · rcases sibling.meets _ _ comes with ⟨place, _, shown⟩ | ⟨other, halted, rfl, _⟩
        · cases shown.1 with
          | whole _ plain _ =>
              rw [Outcome.failure?, plain] at failed
              cases failed
          | nulled _ _ _ =>
              cases failed
              cases urgent
        · cases failed
          exact ⟨sibling, List.mem_cons_self, halted⟩
      · rcases ih others each (List.mem_filterMap.2 ⟨found, behind, failed⟩) with
          ⟨other, inside, halted⟩
        exact ⟨other, List.mem_cons_of_mem _ inside, halted⟩

theorem Failure.urgent_of_halts {failure : Failure} (halts : failure.halts = true) :
    failure.isUrgent = true := by
  cases failure with
  | response error => cases halts
  | _ => rfl

theorem shownEach_of_siblings (siblings : List (Sibling account)) (outcomes : List Outcome)
    (each : ComesEach account (siblings.map (·.program)) outcomes encountered)
    (harmless : ∀ failure ∈ outcomes.filterMap Outcome.failure?, failure.isUrgent = false) :
    ∃ places, List.Forall₂ (fun sibling place => sibling.results (.ok place)) siblings places
      ∧ Place.ShownEach places outcomes encountered := by
  induction siblings generalizing outcomes encountered with
  | nil =>
      simp only [List.map_nil, ComesEach] at each
      rw [each.1, each.2]
      exact ⟨[], .nil, .nil⟩
  | cons sibling rest ih =>
      simp only [List.map_cons, ComesEach] at each
      rcases each with ⟨first, others, part, later, rfl, rfl, comes, each⟩
      rcases ih others each fun failure member => harmless failure (by
        rcases List.mem_filterMap.1 member with ⟨found, inside, failed⟩
        exact List.mem_filterMap.2 ⟨found, List.mem_cons_of_mem _ inside, failed⟩) with
        ⟨places, found, shown⟩
      rcases sibling.meets _ _ comes with ⟨place, here, shows_⟩ | ⟨failure, halted, rfl, _⟩
      · exact ⟨place :: places, .cons here found, .cons shows_ shown⟩
      · have urgent := Failure.urgent_of_halts (sibling.handled failure halted)
        rw [harmless failure (List.mem_filterMap.2 ⟨_, List.mem_cons_self, rfl⟩)] at urgent
        cases urgent

theorem halted_of_some (siblings : List (Sibling account)) (failure : Failure)
    (urgent : failure.isUrgent = true)
    (some_ : ComesSome account (siblings.map (·.program)) failure) :
    ∃ sibling ∈ siblings, sibling.results (.error failure) := by
  induction siblings with
  | nil => simp only [List.map_nil, ComesSome] at some_
  | cons sibling rest ih =>
      simp only [List.map_cons, ComesSome] at some_
      rcases some_ with ⟨part, comes⟩ | later
      · rcases sibling.meets _ _ comes with ⟨place, _, shown⟩ | ⟨other, halted, same, _⟩
        · cases shown.1
          cases urgent
        · cases same
          exact ⟨sibling, List.mem_cons_self, halted⟩
      · rcases ih later with ⟨other, inside, halted⟩
        exact ⟨other, List.mem_cons_of_mem _ inside, halted⟩

/-- Siblings put together show the content that their places make up. -/
theorem meets_gathered (siblings : List (Sibling account))
    (build : List Value → Value) (content : List Place → Content)
    (plain : ∀ values, Failure.ofValue? (build values) = none)
    (solid : ∀ places, (content places).Solid)
    (data : ∀ places, (content places).data? = (Place.dataOfAll places).map build)
    (rising : ∀ places, (content places).rising? = (Place.risings places).head?)
    (encounters : ∀ places, (content places).encounters
      = Place.encountersOfAll places ++ (Place.risings places).map .recorded) :
    (join (siblings.map (·.program)) (gathered build)).Meets account
      ((Results.together (siblings.map (·.results))).bind fun places => .pure (content places))
      Content.Shows := by
  intro outcome encountered comes
  have halted : ∀ failure, (∃ sibling ∈ siblings, sibling.results (.error failure)) →
      outcome = .error failure →
      ∃ failure, ((Results.together (siblings.map (·.results))).bind fun places =>
          .pure (content places)) (.error failure)
        ∧ outcome = .error failure ∧ (failure.halts = false → encountered = []) := by
    rintro failure ⟨sibling, member, found⟩ ended
    refine ⟨failure, .inl ⟨failure, ?_, rfl⟩, ended, fun goesOn => ?_⟩
    · exact ⟨sibling.results, List.mem_map_of_mem member, found⟩
    · rw [sibling.handled failure found] at goesOn
      cases goesOn
  simp only [Comes] at comes
  rcases comes with ⟨outcomes, part, rest, each, comes, rfl⟩ |
    ⟨failure, part, rest, urgent, some_, comes, rfl⟩
  -- Every sibling has settled. Unless one of them ends everything, the failures are their errors.
  · by_cases harmless : ∀ failure ∈ outcomes.filterMap Outcome.failure?, failure.isUrgent = false
    · rcases shownEach_of_siblings siblings outcomes each harmless with ⟨places, found, shown⟩
      rcases shown.summary with ⟨failures, located, rfl, clean, nulled⟩
      refine .inl ⟨content places, .inr ⟨places, ?_, rfl⟩, solid places, ?_⟩
      · simp only [Results.together, List.forall₂_map_left_iff]
        exact found
      · rw [data, rising, encounters]
        simp only [gathered, failures] at comes
        generalize Place.risings places = failed at *
        cases failed with
        | nil =>
            rcases comes_succeed _ comes with ⟨rfl, rfl⟩
            rw [clean rfl]
            exact ⟨.whole rfl (plain _) rfl, rfl⟩
        | cons first later =>
            rcases comes_bubble _ _ comes with ⟨errors, all, rfl, rfl⟩ | ⟨other, member, urgent, _⟩
            · have same : first :: later = errors :=
                List.map_injective_iff.2 (fun _ _ same => Failure.response.inj same) all
              rw [nulled (List.cons_ne_nil _ _), same]
              exact ⟨.nulled rfl (located first List.mem_cons_self) (same ▸ rfl), rfl⟩
            · rw [← List.map_cons] at member
              rcases List.mem_map.1 member with ⟨error, _, rfl⟩
              cases urgent
    · simp only [not_forall, Bool.not_eq_false] at harmless
      rcases harmless with ⟨failure, member, urgent⟩
      simp only [gathered] at comes
      split at comes
      · next none_ =>
          rw [none_] at member
          cases member
      · next first later failures =>
          rcases comes_bubble _ _ comes with ⟨errors, all, _⟩ | ⟨other, found, urgent', ended⟩
          · rw [failures, all] at member
            rcases List.mem_map.1 member with ⟨error, _, rfl⟩
            cases urgent
          · rw [← failures] at found
            exact .inr (halted other (failure_of_siblings siblings outcomes each other found urgent')
              ended)
  · rcases comes_fail _ comes with ⟨ended, _⟩
    exact .inr (halted failure (halted_of_some siblings failure urgent some_) ended)

end Program

end GraphQL
