import GraphQL.Proofs.Encounters
import GraphQL.Proofs.Reported
import Mathlib.Data.List.Perm.Basic

/-!
The order in which errors are encountered and the one in which they are listed. Places fail in the
order of the response. The error of a place that may be null is recorded where the place fails, the
error of a place that forbids null only when all the places beside it are settled.
-/

namespace GraphQL

namespace ResponseError

theorem isSame_trans {first second third : ResponseError} (left : first.isSame second = true)
    (right : second.isSame third = true) : first.isSame third = true := by
  unfold isSame at *
  cases a : first.identity <;> cases b : second.identity <;> cases c : third.identity <;>
    simp_all

/-- The errors recorded so far, when another one is to be recorded. -/
def noted (errors : List ResponseError) (error : ResponseError) : List ResponseError :=
  if errors.any (·.isSame error) then errors else errors ++ [error]

/-- Errors as they are recorded, each of them once. -/
def firsts (errors : List ResponseError) : List ResponseError := errors.foldl noted []

theorem noted_of_known {errors : List ResponseError} {error : ResponseError}
    (known : errors.any (·.isSame error) = true) : noted errors error = errors := if_pos known

theorem foldl_noted_of_known {errors more : List ResponseError}
    (known : ∀ error ∈ more, errors.any (·.isSame error) = true) :
    more.foldl noted errors = errors := by
  induction more with
  | nil => rfl
  | cons error rest ih =>
      rw [List.foldl_cons, noted_of_known (known error List.mem_cons_self)]
      exact ih fun other member => known other (List.mem_cons_of_mem _ member)

/-- Errors that are apart from all that come are left out of account. -/
theorem foldl_noted_append {before errors more : List ResponseError}
    (apart : ∀ earlier ∈ before, ∀ later ∈ more, earlier.isSame later = false) :
    more.foldl noted (before ++ errors) = before ++ more.foldl noted errors := by
  induction more generalizing errors with
  | nil => rfl
  | cons error rest ih =>
      have unknown : before.any (·.isSame error) = false :=
        List.any_eq_false.2 fun earlier member => by
          simp [apart earlier member error List.mem_cons_self]
      have step : noted (before ++ errors) error = before ++ noted errors error := by
        unfold noted
        rw [List.any_append, unknown, Bool.false_or]
        split
        · rfl
        · rw [List.append_assoc]
      rw [List.foldl_cons, List.foldl_cons, step]
      exact ih fun earlier member later inside => apart earlier member later (List.mem_cons_of_mem _ inside)

theorem subset_foldl_noted (errors more : List ResponseError) :
    errors ⊆ more.foldl noted errors := by
  induction more generalizing errors with
  | nil => exact List.Subset.refl _
  | cons error rest ih =>
      refine List.Subset.trans ?_ (ih _)
      unfold noted
      split
      · exact List.Subset.refl _
      · exact List.subset_append_left _ _

theorem any_foldl_noted {errors more : List ResponseError} {error : ResponseError}
    (member : error ∈ more) : (more.foldl noted errors).any (·.isSame error) = true := by
  induction more generalizing errors with
  | nil => cases member
  | cons first rest ih =>
      rcases List.mem_cons.1 member with rfl | later
      · have here : ∃ kept ∈ noted errors error, kept.isSame error = true := by
          unfold noted
          split
          · next known => exact List.any_eq_true.1 known
          · exact ⟨error, List.mem_append_right _ List.mem_cons_self, error.isSame_refl⟩
        rcases here with ⟨kept, inside, same⟩
        exact List.any_eq_true.2 ⟨kept, subset_foldl_noted _ rest inside, same⟩
      · exact ih later

/-- The first errors of several stretches, if no error of one is the same as one of another. -/
theorem firsts_flatMap {ι : Type} (blocks : List ι) (errors found : ι → List ResponseError)
    (each : ∀ block ∈ blocks, firsts (errors block) = found block)
    (apart : AllApart (blocks.flatMap found)) :
    firsts (blocks.flatMap errors) = blocks.flatMap found := by
  induction blocks with
  | nil => rfl
  | cons block rest ih =>
      rw [List.flatMap_cons] at apart ⊢
      rcases List.pairwise_append.1 apart with ⟨_, apartLater, across⟩
      have tail := ih (fun other member => each other (List.mem_cons_of_mem _ member)) apartLater
      have head := each block List.mem_cons_self
      unfold firsts at head tail ⊢
      rw [List.flatMap_cons, List.foldl_append, head, ← List.append_nil (found block),
        foldl_noted_append, tail, List.append_nil]
      intro earlier member later inside
      have known : ((rest.flatMap errors).foldl noted []).any (·.isSame later) = true :=
        any_foldl_noted inside
      rw [tail] at known
      rcases List.any_eq_true.1 known with ⟨kept, found, same⟩
      refine Bool.eq_false_iff.2 fun alike => ?_
      rw [isSame_comm] at same
      have clash := isSame_trans alike same
      rw [across earlier member kept found] at clash
      cases clash

end ResponseError

/-- The error of a place that failed although it forbids null. -/
def Place.held? : Place → Option ResponseError
  | .failed true error => some error
  | _ => none

mutual

/-- The errors of a place and those below it, in the order in which they are listed. -/
def Place.listed : Place → List ResponseError
  | .failed nonNull error => if nonNull then [] else [error]
  | .filled _ content => content.listed

def Content.listed : Content → List ResponseError
  | .null | .leaf _ => []
  | .list places | .object _ places => Place.listedOfAll places ++ places.filterMap Place.held?

def Place.listedOfAll : List Place → List ResponseError
  | [] => []
  | place :: rest => place.listed ++ Place.listedOfAll rest

end

mutual

/-- The errors at and below a place whose own places forbid null. -/
def Place.held : Place → List ResponseError
  | .failed nonNull error => if nonNull then [error] else []
  | .filled _ content => content.held

def Content.held : Content → List ResponseError
  | .null | .leaf _ => []
  | .list places | .object _ places => Place.heldOfAll places

def Place.heldOfAll : List Place → List ResponseError
  | [] => []
  | place :: rest => place.held ++ Place.heldOfAll rest

end

theorem Place.listedOfAll_eq (places : List Place) :
    Place.listedOfAll places = places.flatMap Place.listed := by
  induction places with
  | nil => rfl
  | cons place rest ih => rw [Place.listedOfAll, ih, List.flatMap_cons]

theorem Place.heldOfAll_eq (places : List Place) :
    Place.heldOfAll places = places.flatMap Place.held := by
  induction places with
  | nil => rfl
  | cons place rest ih => rw [Place.heldOfAll, ih, List.flatMap_cons]

theorem Content.listed_eq (content : Content) :
    content.listed
      = content.places.flatMap Place.listed ++ content.places.filterMap Place.held? := by
  cases content <;> simp only [Content.listed, Content.places, Place.listedOfAll_eq] <;> rfl

theorem Content.held_eq (content : Content) :
    content.held = content.places.flatMap Place.held := by
  cases content <;> simp only [Content.held, Content.places, Place.heldOfAll_eq] <;> rfl

theorem Place.perm_errors (place : Place) (path : List PathKey) :
    (place.listed ++ place.held?.toList).Perm (place.errors path) := by
  induction place using Place.induction generalizing path with
  | failed nonNull error => cases nonNull <;> exact List.Perm.refl _
  | filled nonNull content ih =>
      rw [show (filled nonNull content).errors path = content.errors path from rfl, listed,
        show (filled nonNull content).held? = none from rfl, Option.toList_none, List.append_nil,
        Content.errors_eq, Content.listed_eq, ← content.children_snd path, List.flatMap_map,
        List.filterMap_map, List.filterMap_eq_flatMap_toList]
      refine (List.flatMap_append_perm _ _ _).trans ?_
      exact List.Perm.flatMap_left _ fun child member => ih child.2 (Content.snd_mem member) child.1

theorem Content.perm_errors (content : Content) (path : List PathKey) :
    content.listed.Perm (content.errors path) := by
  have whole := (Place.filled false content).perm_errors path
  rwa [show (Place.filled false content).held? = none from rfl, Option.toList_none,
    List.append_nil] at whole

open ResponseError

theorem ResponseError.AllApart.of_perm {left right : List ResponseError} (apart : AllApart right)
    (perm : left.Perm right) : AllApart left :=
  (perm.pairwise_iff fun {first second} differ => by rw [isSame_comm]; exact differ).2 apart

theorem Content.apart_of_mem {content : Content} {path : List PathKey}
    (apart : AllApart (content.errors path)) {child : List PathKey × Place}
    (member : child ∈ content.children path) : AllApart (child.2.errors child.1) := by
  rw [errors_eq, List.flatMap_def] at apart
  exact apart.sublist (List.sublist_flatten_of_mem (List.mem_map.2 ⟨child, member, rfl⟩))

theorem Content.flatMap_children {β : Type} (content : Content) (path : List PathKey)
    (part : Place → List β) :
    content.places.flatMap part = (content.children path).flatMap fun child => part child.2 := by
  rw [← content.children_snd path, List.flatMap_map]

theorem Content.known_of_rising {content : Content} {errors : List ResponseError} :
    ∀ error ∈ content.rising?.toList,
      ((content.encounters.map Encounter.error).foldl noted errors).any (·.isSame error) = true :=
  fun _ rises => any_foldl_noted (List.mem_map.2
    ⟨_, recorded_of_rising (Option.mem_toList.1 rises), rfl⟩)

theorem Place.firsts_encounters (place : Place) (path : List PathKey)
    (apart : AllApart (place.errors path)) :
    firsts (place.encounters.map Encounter.error ++ place.rising?.toList) = place.errors path := by
  induction place using Place.induction generalizing path with
  | failed nonNull error => cases nonNull <;> rfl
  | filled nonNull content ih =>
      have once : (filled nonNull content).encounters.map Encounter.error
            ++ (filled nonNull content).rising?.toList
          = content.encounters.map Encounter.error ++ content.rising?.toList := by
        cases nonNull <;> simp [encounters, rising?, -List.map_map]
      have known : ∀ error ∈ content.places.filterMap rising?,
          (((encountersOfAll content.places).map Encounter.error).foldl noted []).any
            (·.isSame error) = true := by
        intro error rises
        rcases List.mem_filterMap.1 rises with ⟨place, inside, rises⟩
        refine any_foldl_noted (List.mem_map.2 ⟨.ended error, ?_, rfl⟩)
        rw [encountersOfAll_eq]
        exact List.mem_flatMap.2 ⟨place, inside, List.mem_append_right _
          (List.mem_map_of_mem (Option.mem_toList.2 rises))⟩
      rw [once, firsts, List.foldl_append, foldl_noted_of_known Content.known_of_rising,
        Content.encounters_eq, List.map_append, Encounter.map_error_recorded, List.foldl_append,
        foldl_noted_of_known known, encountersOfAll_eq, List.map_flatMap,
        content.flatMap_children path]
      rw [show (filled nonNull content).errors path = content.errors path from rfl] at apart ⊢
      rw [Content.errors_eq] at apart ⊢
      refine firsts_flatMap _ _ _ (fun child member => ?_) apart
      rw [List.map_append, Encounter.map_error_ended]
      refine ih child.2 (Content.snd_mem member) child.1 ?_
      rw [← Content.errors_eq] at apart
      exact Content.apart_of_mem apart member

/-- The errors of held places are recorded one after the other, when the places beside them are
settled. -/
theorem Place.foldl_noted_risings (errors : List ResponseError) (places : List Place)
    (known : ∀ place ∈ places, place.held? = none → ∀ error, place.rising? = some error →
      errors.any (·.isSame error) = true)
    (apart : AllApart (errors ++ places.filterMap held?)) :
    (places.filterMap rising?).foldl noted errors = errors ++ places.filterMap held? := by
  induction places generalizing errors with
  | nil => rw [List.filterMap_nil, List.filterMap_nil, List.append_nil]; rfl
  | cons place rest ih =>
      have later := fun other member => known other (List.mem_cons_of_mem place member)
      cases held : place.held? with
      | some error =>
          have rises : place.rising? = some error := by
            unfold held? at held
            split at held
            · cases held
              rfl
            · cases held
          rw [List.filterMap_cons_some held] at apart ⊢
          rw [List.filterMap_cons_some rises, List.foldl_cons]
          have fresh : noted errors error = errors ++ [error] := by
            refine if_neg fun found => ?_
            rcases List.any_eq_true.1 found with ⟨kept, member, same⟩
            rw [(List.pairwise_append.1 apart).2.2 kept member error List.mem_cons_self] at same
            cases same
          rw [List.append_cons] at apart ⊢
          rw [fresh]
          refine ih _ (fun other member none_ found rises => ?_) apart
          rw [List.any_append, later other member none_ found rises, Bool.true_or]
      | none =>
          rw [List.filterMap_cons_none held] at apart ⊢
          cases rises : place.rising? with
          | none =>
              rw [List.filterMap_cons_none rises]
              exact ih errors later apart
          | some error =>
              rw [List.filterMap_cons_some rises, List.foldl_cons,
                noted_of_known (known place List.mem_cons_self held error rises)]
              exact ih errors later apart

theorem ResponseError.any_isSame_of_mem {errors : List ResponseError} {error : ResponseError}
    (member : error ∈ errors) : errors.any (·.isSame error) = true :=
  List.any_eq_true.2 ⟨error, member, error.isSame_refl⟩

theorem Place.recordedIn_encountersOfAll (places : List Place) :
    Encounter.recordedIn (encountersOfAll places)
      = places.flatMap fun place => Encounter.recordedIn place.encounters := by
  rw [encountersOfAll_eq]
  induction places with
  | nil => rfl
  | cons place rest ih =>
      rw [List.flatMap_cons, Encounter.recordedIn_append, ih, Encounter.recordedIn_append,
        Encounter.recordedIn_ended, List.append_nil, List.flatMap_cons]

/-- The errors of a place are listed in the order of `Place.listed`. -/
theorem Place.firsts_recorded (place : Place) (path : List PathKey)
    (apart : AllApart (place.errors path)) :
    firsts (Encounter.recordedIn place.encounters) = place.listed := by
  induction place using Place.induction generalizing path with
  | failed nonNull error => cases nonNull <;> rfl
  | filled nonNull content ih =>
      rw [show (filled nonNull content).errors path = content.errors path from rfl] at apart
      have known : ∀ error ∈ if nonNull then [] else content.rising?.toList,
          ((Encounter.recordedIn content.encounters).foldl noted []).any (·.isSame error) = true := by
        intro error member
        have rises : error ∈ content.rising?.toList := by
          cases nonNull with
          | true => cases member
          | false => exact member
        exact any_foldl_noted (Encounter.mem_recordedIn.2
          (Content.recorded_of_rising (Option.mem_toList.1 rises)))
      have twice : Encounter.recordedIn (filled nonNull content).encounters
          = Encounter.recordedIn content.encounters
            ++ if nonNull then [] else content.rising?.toList := by
        cases nonNull <;> simp [encounters]
      have apartListed := apart.of_perm (content.perm_errors path)
      rw [Content.listed_eq] at apartListed
      have below : firsts (content.places.flatMap fun place => Encounter.recordedIn place.encounters)
          = content.places.flatMap listed := by
        rw [content.flatMap_children path, content.flatMap_children path]
        refine firsts_flatMap _ _ _ (fun child member => ?_) ?_
        · exact ih child.2 (Content.snd_mem member) child.1 (Content.apart_of_mem apart member)
        · rw [← content.flatMap_children path listed]
          exact (List.pairwise_append.1 apartListed).1
      rw [twice, firsts, List.foldl_append, foldl_noted_of_known known, Content.encounters_eq,
        Encounter.recordedIn_append, Encounter.recordedIn_recorded, recordedIn_encountersOfAll,
        List.foldl_append]
      unfold firsts at below
      rw [below, listed, Content.listed_eq]
      refine foldl_noted_risings _ _ (fun place inside none_ error rises => ?_) apartListed
      have listed := (place.perm_errors path).mem_iff.2 ((place.mem_errors path error).2 (.inr rises))
      rw [none_, Option.toList_none, List.append_nil] at listed
      exact any_isSame_of_mem (List.mem_flatMap.2 ⟨place, inside, listed⟩)

end GraphQL
