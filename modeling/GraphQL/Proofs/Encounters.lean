import GraphQL.Proofs.Account
import GraphQL.Proofs.Content

/-!
What is encountered at a place. The error of a place that may be null is recorded there. At a place
that forbids null it goes on, and it is recorded once all the places beside it are settled.
-/

namespace GraphQL

mutual

/-- The error that goes on from a place to the one around it. -/
def Place.rising? : Place → Option ResponseError
  | .failed nonNull error => if nonNull then some error else none
  | .filled nonNull content => if nonNull then content.rising? else none

def Content.rising? : Content → Option ResponseError
  | .null | .leaf _ => none
  | .list places | .object _ places => (Place.risings places).head?

def Place.risings : List Place → List ResponseError
  | [] => []
  | place :: rest => place.rising?.toList ++ Place.risings rest

end

mutual

/-- The errors at and below a place, in the order in which they are encountered. -/
def Place.encounters : Place → List Encounter
  | .failed nonNull error => if nonNull then [] else [.recorded error]
  | .filled nonNull content =>
    content.encounters ++ if nonNull then [] else content.rising?.toList.map .recorded

def Content.encounters : Content → List Encounter
  | .null | .leaf _ => []
  | .list places | .object _ places =>
    Place.encountersOfAll places ++ (Place.risings places).map .recorded

def Place.encountersOfAll : List Place → List Encounter
  | [] => []
  | place :: rest =>
    place.encounters ++ (place.rising?.toList.map .ended ++ Place.encountersOfAll rest)

end

/-- The places that a content is made of. -/
def Content.places : Content → List Place
  | .null | .leaf _ => []
  | .list places | .object _ places => places

theorem Content.sizeOf_lt {content : Content} {place : Place} (member : place ∈ content.places)
    (nonNull : Bool) : sizeOf place < sizeOf (Place.filled nonNull content) := by
  cases content with
  | null | leaf value => cases member
  | list places | object keys places =>
      have smaller := List.sizeOf_lt_of_mem (show place ∈ places from member)
      simp only [Place.filled.sizeOf_spec, Content.list.sizeOf_spec, Content.object.sizeOf_spec]
      omega

/-- What holds of failed places, and of a filled one as soon as it holds of the places in it. -/
theorem Place.induction {motive : Place → Prop}
    (failed : ∀ nonNull error, motive (.failed nonNull error))
    (filled : ∀ nonNull content, (∀ place ∈ content.places, motive place) →
      motive (.filled nonNull content)) (place : Place) : motive place := by
  match place with
  | .failed nonNull error => exact failed nonNull error
  | .filled nonNull content =>
      exact filled nonNull content fun place member => Place.induction failed filled place
termination_by sizeOf place
decreasing_by exact Content.sizeOf_lt member nonNull

/-- The key of the place at an index of a content. -/
def Content.key : Content → Nat → PathKey
  | .object keys _, index => .name (keys.getD index "")
  | _, index => .index index

/-- The places of a content, each with its path. -/
def Content.children (path : List PathKey) (content : Content) : List (List PathKey × Place) :=
  content.places.zipIdx.map fun entry => (path ++ [content.key entry.2], entry.1)

theorem Content.children_snd (path : List PathKey) (content : Content) :
    (content.children path).map (·.2) = content.places := by
  rw [children, List.map_map]
  exact List.zipIdx_map_fst 0 content.places

theorem Content.snd_mem {path : List PathKey} {content : Content} {child : List PathKey × Place}
    (member : child ∈ content.children path) : child.2 ∈ content.places := by
  rw [← content.children_snd path]
  exact List.mem_map_of_mem member

theorem Place.failuresFrom_eq (path : List PathKey) (start : Nat) (places : List Place) :
    Place.failuresFrom path start places = (places.zipIdx start).flatMap fun entry =>
      entry.1.failures (path ++ [.index (entry.2 : Nat)]) := by
  induction places generalizing start with
  | nil => rfl
  | cons place rest ih => rw [Place.failuresFrom, ih, List.zipIdx_cons, List.flatMap_cons]

theorem Place.failuresUnder_eq (path : List PathKey) (keys : List String) (start : Nat)
    (places : List Place) :
    Place.failuresUnder path (keys.drop start) places
      = (places.zipIdx start).flatMap fun entry =>
        entry.1.failures (path ++ [.name (keys.getD entry.2 "")]) := by
  induction places generalizing start with
  | nil => rfl
  | cons place rest ih =>
      have head : (keys.drop start).headD "" = keys.getD start "" := by
        rw [List.headD_eq_head?_getD, List.head?_drop, List.getD_eq_getElem?_getD]
      rw [Place.failuresUnder, List.tail_drop, ih, List.zipIdx_cons, List.flatMap_cons, head]

theorem Content.failures_eq (path : List PathKey) (content : Content) :
    content.failures path
      = (content.children path).flatMap fun child => child.2.failures child.1 := by
  rw [children, List.flatMap_map]
  cases content with
  | null | leaf value => rfl
  | list places => exact Place.failuresFrom_eq path 0 places
  | object keys places => exact Place.failuresUnder_eq path keys 0 places

theorem Content.errors_eq (path : List PathKey) (content : Content) :
    content.errors path = (content.children path).flatMap fun child => child.2.errors child.1 := by
  rw [errors, failures_eq, List.map_flatMap]
  rfl

theorem Place.risings_eq (places : List Place) :
    Place.risings places = places.filterMap Place.rising? := by
  induction places with
  | nil => rfl
  | cons place rest ih =>
      rw [Place.risings, ih]
      cases rises : place.rising? with
      | none => rw [List.filterMap_cons_none rises]; rfl
      | some error => rw [List.filterMap_cons_some rises]; rfl

theorem Place.encountersOfAll_eq (places : List Place) :
    Place.encountersOfAll places = places.flatMap fun place =>
      place.encounters ++ place.rising?.toList.map .ended := by
  induction places with
  | nil => rfl
  | cons place rest ih => rw [Place.encountersOfAll, ih, List.flatMap_cons, List.append_assoc]

theorem Content.rising?_eq (content : Content) :
    content.rising? = (content.places.filterMap Place.rising?).head? := by
  cases content <;> simp only [Content.rising?, Content.places, Place.risings_eq] <;> rfl

theorem Content.encounters_eq (content : Content) :
    content.encounters = Place.encountersOfAll content.places
      ++ (content.places.filterMap Place.rising?).map .recorded := by
  cases content <;> simp only [Content.encounters, Content.places, Place.risings_eq] <;> rfl

theorem Content.recorded_mem_encounters {content : Content} {error : ResponseError} :
    .recorded error ∈ content.encounters
      ↔ ∃ place ∈ content.places, .recorded error ∈ place.encounters ∨ place.rising? = some error := by
  simp only [encounters_eq, Place.encountersOfAll_eq, List.mem_append, List.mem_flatMap, List.mem_map,
    List.mem_filterMap, Option.mem_toList, reduceCtorEq, and_false, exists_false, or_false,
    Encounter.recorded.injEq, exists_eq_right, and_or_left, exists_or]

theorem Content.recorded_of_rising {content : Content} {error : ResponseError}
    (rises : content.rising? = some error) : .recorded error ∈ content.encounters := by
  rw [rising?_eq] at rises
  rcases List.mem_filterMap.1 (List.mem_of_mem_head? rises) with ⟨place, inside, rises⟩
  exact recorded_mem_encounters.2 ⟨place, inside, .inr rises⟩

/-- The errors of a place are recorded, but for the one that goes on. -/
theorem Place.mem_errors (place : Place) (path : List PathKey) (error : ResponseError) :
    error ∈ place.errors path ↔ .recorded error ∈ place.encounters ∨ place.rising? = some error := by
  induction place using Place.induction generalizing path with
  | failed nonNull found =>
      cases nonNull <;> simp [errors, failures, encounters, rising?, eq_comm]
  | filled nonNull content ih =>
      have below : error ∈ content.errors path ↔ .recorded error ∈ content.encounters := by
        rw [Content.errors_eq, Content.recorded_mem_encounters, List.mem_flatMap,
          ← content.children_snd path]
        simp only [List.mem_map]
        constructor
        · rintro ⟨child, member, found⟩
          exact ⟨child.2, ⟨child, member, rfl⟩, (ih child.2 (Content.snd_mem member) child.1).1 found⟩
        · rintro ⟨_, ⟨child, member, rfl⟩, found⟩
          exact ⟨child, member, (ih child.2 (Content.snd_mem member) child.1).2 found⟩
      rw [show (filled nonNull content).errors path = content.errors path from rfl, below, encounters,
        rising?, List.mem_append]
      cases nonNull with
      | true => simpa using Content.recorded_of_rising
      | false => simpa using Content.recorded_of_rising

theorem Encounter.mem_recordedIn {encountered : List Encounter} {error : ResponseError} :
    error ∈ recordedIn encountered ↔ .recorded error ∈ encountered := by
  rw [recordedIn, List.mem_filterMap]
  constructor
  · rintro ⟨encounter, member, found⟩
    cases encounter with
    | ended other => cases found
    | recorded other =>
        cases found
        exact member
  · exact fun member => ⟨.recorded error, member, rfl⟩

end GraphQL
