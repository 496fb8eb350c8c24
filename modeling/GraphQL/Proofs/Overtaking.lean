import GraphQL.Proofs.Listing

/-!
Which errors are listed out of order. Of two errors the one whose place fails first is listed first,
unless its place forbids null and the other one fails at or below a place beside it: such errors are
listed only when all the places beside them are settled.
-/

namespace GraphQL

section Pairs

variable {α β : Type} {x y : α}

theorem pair_sublist_cons {z : α} {l : List α} :
    [x, y].Sublist (z :: l) ↔ x = z ∧ y ∈ l ∨ [x, y].Sublist l := by
  rw [List.sublist_cons_iff, or_comm]
  simp [List.singleton_sublist]

theorem pair_sublist_append {l m : List α} :
    [x, y].Sublist (l ++ m) ↔ [x, y].Sublist l ∨ x ∈ l ∧ y ∈ m ∨ [x, y].Sublist m := by
  induction l with
  | nil => simp
  | cons z l ih =>
      rw [List.cons_append, pair_sublist_cons, ih, pair_sublist_cons, List.mem_append, List.mem_cons]
      tauto

theorem pair_sublist_flatMap {l : List β} {part : β → List α} :
    [x, y].Sublist (l.flatMap part)
      ↔ (∃ a ∈ l, [x, y].Sublist (part a))
        ∨ ∃ a b, [a, b].Sublist l ∧ x ∈ part a ∧ y ∈ part b := by
  induction l with
  | nil => simp
  | cons c l ih =>
      simp only [List.flatMap_cons, pair_sublist_append, ih, List.mem_flatMap, List.mem_cons,
        pair_sublist_cons]
      constructor
      · rintro (here | ⟨first, b, member, second⟩ | ⟨a, member, inside⟩ | ⟨a, b, order, first, second⟩)
        · exact .inl ⟨c, .inl rfl, here⟩
        · exact .inr ⟨c, b, .inl ⟨rfl, member⟩, first, second⟩
        · exact .inl ⟨a, .inr member, inside⟩
        · exact .inr ⟨a, b, .inr order, first, second⟩
      · rintro (⟨a, rfl | member, inside⟩ | ⟨a, b, ⟨rfl, member⟩ | order, first, second⟩)
        · exact .inl inside
        · exact .inr (.inr (.inl ⟨a, member, inside⟩))
        · exact .inr (.inl ⟨first, b, member, second⟩)
        · exact .inr (.inr (.inr ⟨a, b, order, first, second⟩))

theorem not_pair_sublist_of_swap {l : List α} (distinct : l.Nodup) (order : [x, y].Sublist l) :
    ¬ [y, x].Sublist l := by
  induction l with
  | nil => simp
  | cons z l ih =>
      rw [List.nodup_cons] at distinct
      rw [pair_sublist_cons] at order ⊢
      rintro (⟨rfl, member⟩ | swap)
      · rcases order with ⟨rfl, _⟩ | order
        · exact distinct.1 member
        · exact distinct.1 (order.subset (by simp))
      · rcases order with ⟨rfl, _⟩ | order
        · exact distinct.1 (swap.subset (by simp))
        · exact ih distinct.2 order swap

theorem pair_sublist_or_swap {l : List α} (differ : x ≠ y) (first : x ∈ l) (second : y ∈ l) :
    [x, y].Sublist l ∨ [y, x].Sublist l := by
  induction l with
  | nil => cases first
  | cons z l ih =>
      rw [pair_sublist_cons, pair_sublist_cons]
      rcases List.mem_cons.1 first with rfl | left <;>
        rcases List.mem_cons.1 second with rfl | right
      · exact absurd rfl differ
      · exact .inl (.inl ⟨rfl, right⟩)
      · exact .inr (.inl ⟨rfl, left⟩)
      · exact (ih left right).imp .inr .inr

end Pairs

open ResponseError

namespace Content

variable {path : List PathKey} {content : Content}

theorem forall_keyed_of_allKeyed {places : List Place} (keyed : Place.AllKeyed places) :
    ∀ place ∈ places, place.Keyed := by
  induction places with
  | nil => exact fun _ member => nomatch member
  | cons place rest ih => exact List.forall_mem_cons.2 ⟨keyed.1, ih keyed.2⟩

theorem Keyed.places (keyed : content.Keyed) : ∀ place ∈ content.places, place.Keyed := by
  cases content with
  | null | leaf value => exact fun _ member => nomatch member
  | list places => exact forall_keyed_of_allKeyed keyed
  | object keys places => exact forall_keyed_of_allKeyed keyed.2.2

theorem key_injOn (keyed : content.Keyed) {first second : Nat} (left : first < content.places.length)
    (right : second < content.places.length) (same : content.key first = content.key second) :
    first = second := by
  cases content with
  | null | leaf value => cases left
  | list places =>
      injection same with same
      exact Int.ofNat_inj.1 same
  | object keys places =>
      have size : keys.length = places.length := keyed.2.1
      have here : first < keys.length := size ▸ left
      have there : second < keys.length := size ▸ right
      injection same with same
      rw [List.getD_eq_getElem?_getD, List.getD_eq_getElem?_getD, List.getElem?_eq_getElem here,
        List.getElem?_eq_getElem there] at same
      exact (List.Nodup.getElem_inj_iff keyed.1).1 same

theorem nodup_children (path : List PathKey) (keyed : content.Keyed) :
    ((content.children path).map (·.1)).Nodup := by
  have paths : (content.children path).map (·.1)
      = (List.range content.places.length).map fun index => path ++ [content.key index] := by
    rw [children, List.map_map, ← List.zipIdx_map_snd 0 content.places |>.trans
      (List.range_eq_range' ..).symm, List.map_map]
    rfl
  rw [paths]
  refine List.Nodup.map_on (fun first left second right same => ?_) List.nodup_range
  exact key_injOn keyed (List.mem_range.1 left) (List.mem_range.1 right) (by simpa using same)

theorem child_path {child : List PathKey × Place} (member : child ∈ content.children path) :
    ∃ key, child.1 = path ++ [key] := by
  rcases List.mem_map.1 member with ⟨entry, _, rfl⟩
  exact ⟨_, rfl⟩

theorem child_unique (keyed : content.Keyed) {left right : List PathKey × Place}
    (first : left ∈ content.children path) (second : right ∈ content.children path)
    {position : List PathKey} (before : left.1 <+: position) (before' : right.1 <+: position) :
    left = right := by
  rcases child_path first with ⟨key, here⟩
  rcases child_path second with ⟨key', there⟩
  have size : left.1.length = right.1.length := by rw [here, there]; simp
  refine List.inj_on_of_nodup_map (nodup_children path keyed) first second ?_
  exact (List.prefix_of_prefix_length_le before before' (Nat.le_of_eq size)).eq_of_length size

end Content

/-- An error is listed after one that failed later: its place forbids null, and the other one failed
at or below a place beside it, other than by being such an error itself. -/
def ResponseError.YieldsTo (held : List ResponseError) (earlier later : ResponseError) : Prop :=
  earlier ∈ held ∧ earlier.path.dropLast <+: later.path
    ∧ ¬ (later ∈ held ∧ later.path.dropLast = earlier.path.dropLast)

/-- Every error has the path of its place. -/
def Place.Fits (path : List PathKey) (place : Place) : Prop :=
  ∀ failure ∈ place.failures path, failure.2.path = failure.1

namespace Place

variable {path : List PathKey} {place : Place} {error : ResponseError}

theorem prefix_of_mem (fits : place.Fits path) (member : error ∈ place.errors path) :
    path <+: error.path := by
  rcases List.mem_map.1 member with ⟨failure, inside, rfl⟩
  rcases place.failures_below path failure inside with ⟨rest, found⟩
  exact ⟨rest, by rw [fits failure inside, found]⟩

theorem nodup_errors (place : Place) (keyed : place.Keyed) (fits : place.Fits path) :
    (place.errors path).Nodup := by
  refine List.Nodup.of_map (·.path) ?_
  have paths : (place.errors path).map (·.path) = (place.failures path).map (·.1) := by
    rw [errors, List.map_map]
    exact List.map_congr_left fits
  rw [paths]
  exact place.nodup_failures path keyed

theorem held_subset (place : Place) (path : List PathKey) : place.held ⊆ place.errors path := by
  induction place using Place.induction generalizing path with
  | failed nonNull error =>
      cases nonNull with
      | true => exact List.Subset.refl _
      | false => exact List.nil_subset _
  | filled nonNull content ih =>
      rw [show (filled nonNull content).errors path = content.errors path from rfl, held,
        Content.held_eq, Content.errors_eq, content.flatMap_children path]
      intro error member
      rcases List.mem_flatMap.1 member with ⟨child, inside, found⟩
      exact List.mem_flatMap.2 ⟨child, inside, ih child.2 (Content.snd_mem inside) child.1 found⟩

theorem eq_failed_of_held? (holds : place.held? = some error) : place = .failed true error := by
  unfold held? at holds
  split at holds
  · cases holds
    rfl
  · cases holds

theorem listed_or_held? (member : error ∈ place.errors path) :
    error ∈ place.listed ∨ place.held? = some error := by
  have found := (place.perm_errors path).mem_iff.2 member
  rwa [List.mem_append, Option.mem_toList] at found

end Place

namespace Content

variable {path : List PathKey} {content : Content} {child : List PathKey × Place}
  {error : ResponseError}

theorem fits_child (fits : (Place.filled false content).Fits path)
    (member : child ∈ content.children path) : child.2.Fits child.1 := by
  intro failure inside
  refine fits failure ?_
  rw [Place.failures, failures_eq]
  exact List.mem_flatMap.2 ⟨child, member, inside⟩

theorem mem_held_iff (keyed : content.Keyed) (fits : (Place.filled false content).Fits path)
    (member : child ∈ content.children path) (inside : error ∈ child.2.errors child.1) :
    error ∈ content.held ↔ error ∈ child.2.held := by
  rw [held_eq, content.flatMap_children path, List.mem_flatMap]
  constructor
  · rintro ⟨other, member', found⟩
    have below := Place.prefix_of_mem (fits_child fits member) inside
    have below' := Place.prefix_of_mem (fits_child fits member') (other.2.held_subset other.1 found)
    rwa [child_unique keyed member member' below below']
  · exact fun found => ⟨child, member, found⟩

/-- An error that is listed with its own place, though this forbids null, failed below the place. -/
theorem strictly_below (fits : child.2.Fits child.1) (listed : error ∈ child.2.listed)
    (held : error ∈ child.2.held) : ∃ key, child.1 ++ [key] <+: error.path := by
  obtain ⟨path, place⟩ := child
  cases place with
  | failed nonNull found =>
      cases nonNull with
      | true => cases listed
      | false => cases held
  | filled nonNull content =>
      have member : error ∈ content.errors path := (Place.filled nonNull content).held_subset path held
      rw [errors_eq] at member
      rcases List.mem_flatMap.1 member with ⟨inner, inside, found⟩
      rcases child_path inside with ⟨key, same⟩
      exact ⟨key, same ▸ Place.prefix_of_mem (fits_child fits inside) found⟩

variable {earlier later : ResponseError}

theorem nodup_listed (keyed : content.Keyed) (fits : (Place.filled false content).Fits path) :
    content.listed.Nodup :=
  (content.perm_errors path).nodup_iff.2
    ((Place.filled false content).nodup_errors keyed fits)

/-- Two errors of one place are listed as they are there. -/
theorem listed_iff_within (keyed : content.Keyed) (fits : (Place.filled false content).Fits path)
    (member : child ∈ content.children path)
    (order : [earlier, later].Sublist (child.2.errors child.1)) :
    [earlier, later].Sublist content.listed ↔ [earlier, later].Sublist child.2.listed := by
  have whole : child.2.listed.Sublist content.listed := by
    rw [listed_eq, List.flatMap_def]
    exact (List.sublist_flatten_of_mem (List.mem_map_of_mem (snd_mem member))).trans
      (List.sublist_append_left _ _)
  refine ⟨fun listed => ?_, fun listed => listed.trans whole⟩
  have distinct := child.2.nodup_errors (keyed.places child.2 (snd_mem member))
    (fits_child fits member)
  have differ : earlier ≠ later := fun same => by
    subst same
    exact not_pair_sublist_of_swap distinct order order
  have both : ∀ error ∈ [earlier, later], error ∈ child.2.listed := by
    intro error inside
    rcases Place.listed_or_held? (order.subset inside) with found | holds
    · exact found
    · rw [Place.eq_failed_of_held? holds] at order
      exact absurd order.length_le (by simp [Place.errors, Place.failures])
  rcases pair_sublist_or_swap differ (both _ (by simp)) (both _ (by simp)) with found | swapped
  · exact found
  · exact absurd (swapped.trans whole) (not_pair_sublist_of_swap (nodup_listed keyed fits) listed)

/-- Of two errors at or below different places, the one that fails first is listed first, unless it is
held and the other one is not. -/
theorem listed_iff_across {left right : List PathKey × Place} (keyed : content.Keyed)
    (fits : (Place.filled false content).Fits path)
    (beside : [left, right].Sublist (content.children path))
    (first : earlier ∈ left.2.errors left.1) (second : later ∈ right.2.errors right.1) :
    [earlier, later].Sublist content.listed ↔ ¬ earlier.YieldsTo content.held later := by
  have inLeft : left ∈ content.children path := beside.subset (by simp)
  have inRight : right ∈ content.children path := beside.subset (by simp)
  have apart : left ≠ right := fun same => by
    have distinct := List.Nodup.of_map _ (nodup_children path keyed)
    rw [same] at beside
    exact not_pair_sublist_of_swap distinct beside beside
  have fitsLeft := fits_child fits inLeft
  have fitsRight := fits_child fits inRight
  have belowRight := Place.prefix_of_mem fitsRight second
  have places : [left.2, right.2].Sublist content.places := by
    rw [← content.children_snd path]
    exact beside.map (·.2)
  obtain ⟨key, leftPath⟩ := child_path inLeft
  obtain ⟨key', rightPath⟩ := child_path inRight
  rw [listed_eq]
  rcases Place.listed_or_held? first with listed | holds
  · -- The earlier error was recorded at its place already.
    refine iff_of_true ?_ fun yields => apart ?_
    · rcases Place.listed_or_held? second with listed' | holds'
      · exact pair_sublist_append.2 (.inl (pair_sublist_flatMap.2
          (.inr ⟨left.2, right.2, places, listed, listed'⟩)))
      · exact pair_sublist_append.2 (.inr (.inl
          ⟨List.mem_flatMap.2 ⟨left.2, snd_mem inLeft, listed⟩,
            List.mem_filterMap.2 ⟨right.2, snd_mem inRight, holds'⟩⟩))
    · have held := (mem_held_iff keyed fits inLeft first).1 yields.1
      obtain ⟨inner, below⟩ := strictly_below fitsLeft listed held
      refine child_unique keyed inLeft inRight (List.IsPrefix.trans ?_ yields.2.1) belowRight
      obtain ⟨rest, same⟩ := below
      rw [← same, List.append_assoc, List.singleton_append, List.dropLast_append_cons]
      exact List.prefix_append _ _
  · -- The earlier error waits for the places beside its own.
    have failed := Place.eq_failed_of_held? holds
    have earlierPath : earlier.path = path ++ [key] := by
      rw [← leftPath]
      exact fitsLeft (left.1, earlier) (by rw [failed, Place.failures]; exact List.mem_cons_self)
    have around : earlier.path.dropLast = path := by rw [earlierPath, List.dropLast_concat]
    have heldLeft : earlier ∈ content.held :=
      (mem_held_iff keyed fits inLeft first).2 (by rw [failed]; exact List.mem_cons_self)
    have inHeld := List.mem_filterMap.2 ⟨left.2, snd_mem inLeft, holds⟩
    rcases Place.listed_or_held? second with listed' | holds'
    · refine iff_of_false (fun order => ?_) (not_not.2 ⟨heldLeft, ?_, fun both => ?_⟩)
      · have swapped : [later, earlier].Sublist (content.places.flatMap Place.listed
            ++ content.places.filterMap Place.held?) :=
          pair_sublist_append.2 (.inr (.inl
            ⟨List.mem_flatMap.2 ⟨right.2, snd_mem inRight, listed'⟩, inHeld⟩))
        rw [← listed_eq] at order swapped
        exact not_pair_sublist_of_swap (nodup_listed keyed fits) order swapped
      · rw [around]
        exact (List.prefix_append path [key']).trans (rightPath ▸ belowRight)
      · obtain ⟨inner, below⟩ := strictly_below fitsRight listed'
          ((mem_held_iff keyed fits inRight second).1 both.1)
        obtain ⟨rest, same⟩ := below
        have size := congrArg List.length (both.2.trans around)
        rw [← same, rightPath] at size
        simp at size
    · have failed' := Place.eq_failed_of_held? holds'
      have laterPath : later.path = path ++ [key'] := by
        rw [← rightPath]
        exact fitsRight (right.1, later) (by rw [failed', Place.failures]; exact List.mem_cons_self)
      refine iff_of_true (pair_sublist_append.2 (.inr (.inr ?_))) fun yields => yields.2.2 ⟨?_, ?_⟩
      · have kept := places.filterMap Place.held?
        rwa [List.filterMap_cons_some holds, List.filterMap_cons_some holds'] at kept
      · exact (mem_held_iff keyed fits inRight second).2 (by rw [failed']; exact List.mem_cons_self)
      · rw [around, laterPath, List.dropLast_concat]

end Content

/-- Errors are listed in the order in which their places failed, but for those that yield. -/
theorem Place.listed_iff {path : List PathKey} {place : Place} (keyed : place.Keyed)
    (fits : place.Fits path) {earlier later : ResponseError}
    (order : [earlier, later].Sublist (place.errors path)) :
    [earlier, later].Sublist place.listed ↔ ¬ earlier.YieldsTo place.held later := by
  induction place using Place.induction generalizing path with
  | failed nonNull error =>
      exact absurd order.length_le (by simp [errors, failures])
  | filled nonNull content ih =>
      rw [show (filled nonNull content).errors path = content.errors path from rfl,
        Content.errors_eq] at order
      rcases pair_sublist_flatMap.1 order with ⟨child, member, inside⟩ |
        ⟨left, right, beside, first, second⟩
      · have within := ih child.2 (Content.snd_mem member)
          (Content.Keyed.places keyed child.2 (Content.snd_mem member))
          (Content.fits_child fits member) inside
        have same : ∀ error ∈ [earlier, later], error ∈ content.held ↔ error ∈ child.2.held :=
          fun error found => Content.mem_held_iff keyed fits member (inside.subset found)
        rw [show (filled nonNull content).listed = content.listed from rfl,
          Content.listed_iff_within keyed fits member inside, within,
          show (filled nonNull content).held = content.held from rfl, YieldsTo, YieldsTo,
          same earlier (by simp), same later (by simp)]
      · exact Content.listed_iff_across keyed fits beside first second

end GraphQL
