import GraphQL.Proofs.Answering

/-!
The default equality of keys compares containers part by part, and tells simple values apart by
their kinds. It is reflexive and transitive; it is symmetric, and agrees with the buckets, except
where a decimal stands against a number of another kind, which it equals from one side only.
-/

namespace GraphQL

namespace Value

variable {heap : Heap} {left right : Value}

theorem keysEqual_eq_true_iff (left right : Value) :
    left.keysEqual right = true ↔ left.keysEqual? right = some true := by
  rw [keysEqual, beq_iff_eq]

theorem keyItemsEqual?_iff (xs ys : List Value) :
    keyItemsEqual? xs ys = some true ↔ List.Forall₂ (fun x y => keysEqual x y = true) xs ys := by
  induction xs generalizing ys with
  | nil => cases ys <;> simp [keyItemsEqual?]
  | cons x xs ih =>
      cases ys with
      | nil => simp [keyItemsEqual?]
      | cons y ys =>
          rw [keyItemsEqual?, List.forall₂_cons, ← ih, keysEqual_eq_true_iff]
          generalize x.keysEqual? y = answer
          rcases answer with - | (- | -) <;> simp

theorem keyEntriesEqual?_iff (a b : List (Value × Value)) :
    keyEntriesEqual? a b = some true ↔ ∀ entry ∈ a, ∃ found,
      lookup? b entry.1 = some found ∧ entry.2.keysEqual found = true := by
  induction a with
  | nil => simp [keyEntriesEqual?]
  | cons first rest ih =>
      obtain ⟨key, value⟩ := first
      rw [keyEntriesEqual?, List.forall_mem_cons, ← ih]
      cases lookup? b key with
      | none => simp
      | some found =>
          simp only [Option.some.injEq, exists_eq_left', keysEqual_eq_true_iff]
          generalize value.keysEqual? found = answer
          rcases answer with - | (- | -) <;> simp

theorem sameKeys_iff (a b : List (Value × Value)) :
    sameKeys a b = true ↔ a.length = b.length
      ∧ ∀ entry ∈ a, ∃ other ∈ b, entry.1.isKey other.1 = true := by
  simp [sameKeys]

theorem keysEqual_items {isTuple : Bool} {xs : List Value}
    (here : left.shape = .items isTuple xs) (right : Value) :
    left.keysEqual right = true ↔ ∃ ys, right.shape = .items isTuple ys
      ∧ List.Forall₂ (fun x y => keysEqual x y = true) xs ys := by
  have sized (ys : List Value) : (if xs.length != ys.length then some false
      else keyItemsEqual? xs ys) = some true
        ↔ List.Forall₂ (fun x y => keysEqual x y = true) xs ys := by
    rw [← keyItemsEqual?_iff]
    by_cases size : xs.length = ys.length
    · simp [size]
    · refine iff_of_false (by simp [size]) fun same => size ?_
      exact ((keyItemsEqual?_iff xs ys).1 same).length_eq
  rw [keysEqual_eq_true_iff]
  cases isTuple with
  | false =>
      simp only [shape_eq_items_iff] at here ⊢
      have answer : left.keysEqual? right = right.listed?.elim (some false) fun ys =>
          if xs.length != ys.length then some false else keyItemsEqual? xs ys := by
        cases left with
        | list | growing =>
            obtain rfl := Option.some.inj here
            unfold keysEqual?
            cases right.listed? <;> rfl
        | _ => cases here
      rw [answer]
      cases right.listed? with
      | none => simp
      | some ys => simp only [Option.elim_some, sized, Option.some.injEq, exists_eq_left']
  | true =>
      simp only [shape_eq_tuple_iff] at here ⊢
      rw [here]
      cases right with
      | tuple ys =>
          rw [keysEqual?, sized]
          simp
      | _ => simp [keysEqual?]

theorem keysEqual_entries (fits : left.Comparable heap) (fits' : right.Comparable heap)
    {a : List (Value × Value)} (here : left.shape = .entries a) :
    left.keysEqual right = true ↔ ∃ b, right.shape = .entries b
      ∧ Covers (fun left right => left.isKey right = true)
          (fun left right => left.keysEqual right = true) a b := by
  have laws := equivalentOn_isKey heap
  have parts := (fits.of_entries here).2
  rw [keysEqual_eq_true_iff]
  simp only [shape_eq_entries_iff] at here ⊢
  rw [here]
  cases right with
  | map b =>
      obtain ⟨apart, parts'⟩ := fits'.of_entries rfl
      simp only [map.injEq, exists_eq_left', keysEqual?]
      have answer : (if sameKeys a b then keyEntriesEqual? a b else some false) = some true
          ↔ sameKeys a b = true ∧ keyEntriesEqual? a b = some true := by
        by_cases same : sameKeys a b = true <;> simp [same]
      rw [answer, sameKeys_iff, keyEntriesEqual?_iff]
      constructor
      · rintro ⟨⟨size, _⟩, found⟩
        refine ⟨size, fun entry member => ?_⟩
        obtain ⟨value, located, same⟩ := found entry member
        obtain ⟨other, first, rfl⟩ := Option.map_eq_some_iff.1 located
        have inside := List.mem_of_find?_eq_some first
        have key := List.find?_some (p := fun other : Value × Value => other.1.isKey entry.1) first
        exact ⟨other, inside, laws.symm _ _ (parts' other inside).1.1 (parts entry member).1.1 key,
          same⟩
      · rintro ⟨size, covered⟩
        refine ⟨⟨size, fun entry member => ?_⟩, fun entry member => ?_⟩
        · obtain ⟨other, inside, key, _⟩ := covered entry member
          exact ⟨other, inside, key⟩
        · obtain ⟨other, inside, key, same⟩ := covered entry member
          have fits := (parts entry member).1.1
          have located := laws.find?_eq_some apart (fun entry member => (parts' entry member).1.1)
            fits (fun key => key.isKey entry.1)
            (fun other inside => laws.symm _ _ (parts' other inside).1.1 fits) inside
            (laws.symm _ _ fits (parts' other inside).1.1 key)
          exact ⟨other.2, by rw [lookup?, located]; rfl, same⟩
  | _ => simp [keysEqual?]

/-- Values whose kind counts as well as what they are. -/
def isPrimitive : Value → Bool
  | null | bool _ | int _ | float .. | str _ => true
  | _ => false

inductive NumberKind where
  | boolean | integer | floating | decimal
deriving DecidableEq

/-- The kind of a number or a boolean. -/
def numberKind? : Value → Option NumberKind
  | bool _ => some .boolean
  | int _ => some .integer
  | float .. => some .floating
  | decimal .. => some .decimal
  | _ => none

theorem isKey_atom (fits : left.Comparable heap) (fits' : right.Comparable heap) {atom : Atom}
    (here : left.atom? = some atom) : left.isKey right = true ↔ right.atom? = some atom := by
  rw [fits.isKey_iff fits', shape_eq_atom_iff.2 here, ← shape_eq_atom_iff]
  constructor
  · intro alike
    generalize right.shape = shape at alike
    cases alike
    rfl
  · intro there
    rw [there]
    exact .atom _

theorem identical_of_atom {atom : Atom} (here : left.atom? = some atom)
    (there : right.atom? = some atom) (plain : left.isPrimitive = false)
    (own : left.usesOwnEquality = false) : identical left right = true := by
  cases left with
  | error thrown =>
      rw [atom?, Option.ite_none_left_eq_some] at here
      rw [← here.2] at there
      cases right with
      | error other =>
          rw [atom?, Option.ite_none_left_eq_some] at there
          simpa [identical, eq_comm] using there.2
      | _ => simp [atom?, numeric?] at there
  | deferred | callable | iterator =>
      obtain rfl := Option.some.inj here
      cases right with
      | error other =>
          rw [atom?, Option.ite_none_left_eq_some] at there
          cases there.2
      | _ => simp_all [atom?, numeric?, identical]
  | _ => simp_all [usesOwnEquality, isPrimitive, atom?, numeric?]

/-- Simple values of no primitive kind are one key when they are equal. -/
theorem leavesEqual?_iff_isKey (fits : left.Comparable heap) (fits' : right.Comparable heap)
    {atom : Atom} (here : left.atom? = some atom) (plain : left.isPrimitive = false) :
    leavesEqual? left right = some true ↔ left.isKey right = true := by
  have answer : leavesEqual? left right
      = if identical left right then some true
        else if usesOwnEquality left then equals? left right else some false := by
    cases left with
    | null | bool | int | float | str => cases plain
    | list | growing | tuple | map => cases here
    | _ =>
        rw [leavesEqual?]
        all_goals simp
  rw [answer, isKey_eq_true_iff]
  by_cases same : identical left right = true
  · rw [if_pos same, if_pos same]
  · rw [if_neg same, if_neg same]
    by_cases own : usesOwnEquality left = true
    · rw [if_pos own]
    · rw [if_neg own]
      refine iff_of_false (by simp) fun equal => same ?_
      have alike := (equals_atom here fits'.not_response).1 (by rw [equals, equal]; rfl)
      exact identical_of_atom here alike.symm plain (by simpa using own)

theorem keysEqual_atom (fits : left.Comparable heap) (fits' : right.Comparable heap) {atom : Atom}
    (here : left.atom? = some atom) :
    left.keysEqual right = true ↔ right.atom? = some atom
      ∧ (left.isPrimitive = true → left.numberKind? = right.numberKind?) := by
  rw [keysEqual_eq_true_iff, keysEqual?_atom here]
  cases primitive : left.isPrimitive with
  | false =>
      rw [leavesEqual?_iff_isKey fits fits' here primitive, isKey_atom fits fits' here]
      simp
  | true =>
      cases left with
      | bool b =>
          obtain rfl := Option.some.inj here
          cases right with
          | bool other =>
              cases b <;> cases other <;>
                simp [leavesEqual?, atom?, numeric?, numberKind?, Numeric.amount?]
          | _ => simp [leavesEqual?, numberKind?]
      | null | int | str =>
          obtain rfl := Option.some.inj here
          cases right <;>
            simp [leavesEqual?, atom?, numeric?, numberKind?, Numeric.amount?, eq_comm]
      | float x identity =>
          obtain ⟨amount, stands, rfl⟩ := Option.map_eq_some_iff.1 here
          replace stands : x.amount? = some amount := stands
          cases right with
          | float y identity' =>
              simp [leavesEqual?, atom?, numeric?, numberKind?, Numeric.amount?,
                Binary64.equals_iff, stands]
          | _ => simp [leavesEqual?, numberKind?]
      | _ => cases primitive

theorem keysEqual_object {a : ObjectValue} (here : left.shape = .object a) :
    left.keysEqual right = true ↔ ∃ b, right.shape = .object b
      ∧ (a.identity = b.identity ∨ a.hashable = true ∧ left.isKey right = true) := by
  rw [shape_eq_object_iff] at here
  simp only [shape_eq_object_iff, isKey, Bool.or_eq_true]
  have answer : left.keysEqual? right
      = if identical left right then some true
        else if a.comparesAttributes && a.hashable then left.equals? right else some false := by
    rw [here, keysEqual?]
    · rw [leavesEqual?]
      · rfl
      all_goals simp
    all_goals simp
  have cases_ : left.keysEqual right = true ↔ identical left right = true
      ∨ a.comparesAttributes = true ∧ a.hashable = true ∧ left.equals right = true := by
    rw [keysEqual_eq_true_iff, answer, equals, beq_iff_eq]
    by_cases same : identical left right = true
    · simp [same]
    · cases compares : a.comparesAttributes <;> cases hashable : a.hashable <;> simp [same]
  have same (b : ObjectValue) : identical left (.object b) = true ↔ a.identity = b.identity := by
    rw [here, identical, decide_eq_true_eq]
  rw [cases_]
  constructor
  · rintro (one | ⟨compares, hashable, equal⟩)
    · cases right with
      | object b => exact ⟨b, rfl, .inl ((same b).1 one)⟩
      | _ => rw [here] at one; cases one
    · obtain ⟨b, there, _⟩ := (equals_object a right).1 (here ▸ equal)
      exact ⟨b, there, .inr ⟨hashable, .inr equal⟩⟩
  · rintro ⟨b, rfl, one | ⟨hashable, one | equal⟩⟩
    · exact .inl ((same b).2 one)
    · exact .inl one
    · obtain ⟨_, there, one | ⟨compares, _⟩⟩ := (equals_object a _).1 (here ▸ equal)
      · cases there
        exact .inl ((same b).2 one)
      · exact .inr ⟨compares, hashable, equal⟩

/-- Values that stand against one another in the same place of two lists, tuples or maps. The keys
of maps and the attributes of objects stand in no place: they are compared by their own equality. -/
inductive Facing (related : Value → Value → Prop) : Value → Value → Prop
  | here {left right : Value} (holds : related left right) : Facing related left right
  | item {left right : Value} {isTuple isTuple' : Bool} {xs ys : List Value} {x y : Value}
      (first : left.shape = .items isTuple xs) (second : right.shape = .items isTuple' ys)
      (pair : (x, y) ∈ xs.zip ys) (inside : Facing related x y) : Facing related left right
  | entry {a b : List (Value × Value)} {entry other : Value × Value} (first : entry ∈ a)
      (second : other ∈ b) (key : entry.1.isKey other.1 = true)
      (inside : Facing related entry.2 other.2) : Facing related (.map a) (.map b)

/-- What faces one another in values that are one key is one key, and is so the other way round if
the values are. -/
theorem Facing.keysEqual {related : Value → Value → Prop} (facing : Facing related left right)
    (fits : left.Comparable heap) (fits' : right.Comparable heap)
    (same : left.keysEqual right = true) :
    ∃ x y, related x y ∧ x.Comparable heap ∧ y.Comparable heap ∧ x.keysEqual y = true
      ∧ (right.keysEqual left = true → y.keysEqual x = true) := by
  have laws := equivalentOn_isKey heap
  induction facing with
  | here holds => exact ⟨_, _, holds, fits, fits', same, id⟩
  | item first second pair _ ih =>
      obtain ⟨ys, shape, pairs⟩ := (keysEqual_items first _).1 same
      cases second.symm.trans shape
      obtain ⟨member, member'⟩ := List.of_mem_zip pair
      obtain ⟨x, y, holds, good, good', one, back⟩ := ih (fits.of_items first _ member).1
        (fits'.of_items second _ member').1 ((List.forall₂_iff_zip.1 pairs).2 pair)
      refine ⟨x, y, holds, good, good', one, fun reverse => back ?_⟩
      obtain ⟨xs, shape', pairs'⟩ := (keysEqual_items second _).1 reverse
      cases first.symm.trans shape'
      exact (List.forall₂_iff_zip.1 pairs'.flip).2 pair
  | @entry a b entry other first second key _ ih =>
      obtain ⟨apart, parts⟩ := fits.of_entries rfl
      obtain ⟨apart', parts'⟩ := fits'.of_entries rfl
      obtain ⟨_, shape, covers⟩ := (keysEqual_entries fits fits' rfl).1 same
      cases shape
      obtain ⟨found, member, near, one⟩ := covers.2 entry first
      obtain rfl := laws.entry_unique apart' (fun entry member => (parts' entry member).1.1)
        (parts entry first).1.1 member second near key
      obtain ⟨x, y, holds, good, good', one, back⟩ := ih (parts entry first).2.1
        (parts' found second).2.1 one
      refine ⟨x, y, holds, good, good', one, fun reverse => back ?_⟩
      obtain ⟨_, shape, covers'⟩ := (keysEqual_entries fits' fits rfl).1 reverse
      cases shape
      obtain ⟨found', member', near', one'⟩ := covers'.2 found second
      obtain rfl := laws.entry_unique apart (fun entry member => (parts entry member).1.1)
        (parts' found second).1.1 member' first near'
        (laws.symm _ _ (parts entry first).1.1 (parts' found second).1.1 key)
      exact one'

/-- Induction on what a value of one moment looks like. -/
@[elab_as_elim]
theorem Comparable.by_shape {motive : Value → Prop} {value : Value} (fits : value.Comparable heap)
    (items : ∀ value isTuple xs, value.Comparable heap → value.shape = .items isTuple xs →
      (∀ x ∈ xs, motive x) → motive value)
    (entries : ∀ value a, value.Comparable heap → value.shape = .entries a →
      (∀ entry ∈ a, motive entry.2) → motive value)
    (object : ∀ value o, value.Comparable heap → value.shape = .object o → motive value)
    (atom : ∀ value own, value.Comparable heap → value.atom? = some own → motive value) :
    motive value := by
  induction fits with
  | atom read thrown => exact atom _ _ (.atom read thrown) read
  | list each ih => exact items _ _ _ (.list each) rfl ih
  | growing now each ih => exact items _ _ _ (.growing now each) rfl ih
  | tuple each ih => exact items _ _ _ (.tuple each) rfl ih
  | map keys values apart _ ih => exact entries _ _ (.map keys values apart) rfl ih
  | object now each names => exact object _ _ (.object now each names) rfl

theorem keysEqual_refl (fits : left.Comparable heap) : left.keysEqual left = true := by
  have laws := equivalentOn_isKey heap
  refine fits.by_shape ?_ ?_ ?_ ?_
  · intro value isTuple xs _ here ih
    exact (keysEqual_items here _).2 ⟨xs, here, List.forall₂_same.2 ih⟩
  · intro value a fits here ih
    have parts := (fits.of_entries here).2
    exact (keysEqual_entries fits fits here).2
      ⟨a, here, laws.covers_refl (fun entry member => (parts entry member).1.1) ih⟩
  · intro value o _ here
    exact (keysEqual_object here).2 ⟨o, here, .inl rfl⟩
  · intro value own fits here
    exact (keysEqual_atom fits fits here).2 ⟨here, fun _ => rfl⟩

theorem isSome_numberKind? (value : Value) :
    value.numberKind?.isSome = value.numeric?.isSome := by
  cases value <;> rfl

theorem isSome_numberKind?_iff {value : Value} {atom : Atom} (here : value.atom? = some atom) :
    value.numberKind?.isSome = true ↔ ∃ amount, atom = .number amount := by
  rw [isSome_numberKind?]
  cases number : value.numeric? with
  | some number =>
      rw [atom?_of_numeric ‹_›] at here
      obtain ⟨amount, _, rfl⟩ := Option.map_eq_some_iff.1 here
      simp
  | none =>
      refine iff_of_false (by simp) ?_
      rintro ⟨amount, rfl⟩
      exact atom?_ne_number number amount here

theorem isSome_numberKind?_congr {atom : Atom} (here : left.atom? = some atom)
    (there : right.atom? = some atom) : left.numberKind?.isSome = right.numberKind?.isSome := by
  rw [Bool.eq_iff_iff, isSome_numberKind?_iff here, isSome_numberKind?_iff there]

theorem isPrimitive_of_kind {value : Value} {kind : NumberKind}
    (shown : value.numberKind? = some kind) (other : kind ≠ .decimal) :
    value.isPrimitive = true := by
  cases value with
  | bool | int | float => rfl
  | decimal => exact absurd (Option.some.inj shown).symm other
  | _ => cases shown

theorem isPrimitive_iff {value : Value} {atom : Atom} (here : value.atom? = some atom) :
    value.isPrimitive = true ↔ atom = .null ∨ (∃ text, atom = .text text)
      ∨ ∃ kind, value.numberKind? = some kind ∧ kind ≠ .decimal := by
  cases value with
  | float | decimal =>
      obtain ⟨amount, _, rfl⟩ := Option.map_eq_some_iff.1 here
      simp [isPrimitive, numberKind?]
  | error thrown =>
      rw [atom?, Option.ite_none_left_eq_some] at here
      simp [isPrimitive, numberKind?, ← Option.some.inj here.2]
  | list | growing | tuple | set | map | object | method => cases here
  | _ => simp [isPrimitive, numberKind?, ← Option.some.inj here]

theorem isKey_of_object (fits : left.Comparable heap) (fits' : right.Comparable heap)
    {a : ObjectValue} (here : left.shape = .object a) (same : left.keysEqual right = true) :
    left.isKey right = true := by
  obtain ⟨b, there, one | equal⟩ := (keysEqual_object here).1 same
  · rw [fits.isKey_iff fits', here, there]
    exact .identity one
  · exact equal.2

theorem keysEqual_trans (fits : left.Comparable heap) :
    ∀ middle right : Value, middle.Comparable heap → right.Comparable heap →
      left.keysEqual middle = true → middle.keysEqual right = true →
      left.keysEqual right = true := by
  have laws := equivalentOn_isKey heap
  refine fits.by_shape ?_ ?_ ?_ ?_
  · intro left isTuple xs fits here ih middle right fits' fits'' first second
    obtain ⟨ys, there, pairs⟩ := (keysEqual_items here _).1 first
    obtain ⟨zs, yonder, pairs'⟩ := (keysEqual_items there _).1 second
    refine (keysEqual_items here _).2 ⟨zs, yonder, EquivalentOn.forall₂_trans ?_ pairs pairs'⟩
    intro x member y member' z member''
    exact ih x member y z (fits'.of_items there y member').1 (fits''.of_items yonder z member'').1
  · intro left a fits here ih middle right fits' fits'' first second
    obtain ⟨b, there, covers⟩ := (keysEqual_entries fits fits' here).1 first
    obtain ⟨c, yonder, covers'⟩ := (keysEqual_entries fits' fits'' there).1 second
    have parts := (fits.of_entries here).2
    have parts' := (fits'.of_entries there).2
    have parts'' := (fits''.of_entries yonder).2
    refine (keysEqual_entries fits fits'' here).2 ⟨c, yonder, ?_⟩
    exact laws.covers_trans (fun entry member => (parts entry member).1.1)
      (fun entry member => (parts' entry member).1.1)
      (fun entry member => (parts'' entry member).1.1)
      (fun x member y member' z member'' => ih x member y.2 z.2 (parts' y member').2.1
        (parts'' z member'').2.1) covers covers'
  · intro left a fits here middle right fits' fits'' first second
    obtain ⟨b, there, one⟩ := (keysEqual_object here).1 first
    obtain ⟨c, yonder, two⟩ := (keysEqual_object there).1 second
    have equal := laws.trans _ _ _ fits fits' fits'' (isKey_of_object fits fits' here first)
      (isKey_of_object fits' fits'' there second)
    refine (keysEqual_object here).2 ⟨c, yonder, ?_⟩
    rcases one with one | ⟨hashable, _⟩
    · rw [fits.eq_of_identity fits' here there one]
      exact two.imp_right fun both => ⟨both.1, equal⟩
    · exact .inr ⟨hashable, equal⟩
  · intro left own fits here middle right fits' fits'' first second
    obtain ⟨there, kinds⟩ := (keysEqual_atom fits fits' here).1 first
    obtain ⟨yonder, kinds'⟩ := (keysEqual_atom fits' fits'' there).1 second
    refine (keysEqual_atom fits fits'' here).2 ⟨yonder, fun primitive => ?_⟩
    have kind := kinds primitive
    rw [isPrimitive_iff here, kind, ← isPrimitive_iff there] at primitive
    exact kind.trans (kinds' primitive)

/-- A decimal stands against something else. -/
def DecimalBeforeOther (left right : Value) : Prop :=
  left.numberKind? = some .decimal ∧ right.numberKind? ≠ some .decimal

theorem Comparable.of_kind (fits : left.Comparable heap) (number : left.numberKind?.isSome = true) :
    ∃ atom, left.atom? = some atom := by
  cases fits with
  | atom read => exact ⟨_, read⟩
  | list | growing | tuple | map | object => cases number

theorem numberKind?_eq (fits : left.Comparable heap) (fits' : right.Comparable heap) {atom : Atom}
    (here : left.atom? = some atom) (same : left.keysEqual right = true)
    (plain : ¬DecimalBeforeOther left right) : left.numberKind? = right.numberKind? := by
  obtain ⟨there, kinds⟩ := (keysEqual_atom fits fits' here).1 same
  have both := isSome_numberKind?_congr here there
  cases shown : left.numberKind? with
  | none =>
      rw [shown] at both
      exact (Option.isSome_eq_false_iff.1 both.symm |> Option.isNone_iff_eq_none.1).symm
  | some kind =>
      by_cases decimal : kind = .decimal
      · subst decimal
        by_contra differs
        exact plain ⟨shown, fun kind => differs kind.symm⟩
      · rw [← shown]
        exact kinds (isPrimitive_of_kind shown decimal)

/-- Values are one key the other way round as well, unless a decimal stands before something
else. -/
theorem keysEqual_symm (fits : left.Comparable heap) :
    ∀ right : Value, right.Comparable heap → left.keysEqual right = true →
      ¬Facing DecimalBeforeOther left right → right.keysEqual left = true := by
  have laws := equivalentOn_isKey heap
  refine fits.by_shape ?_ ?_ ?_ ?_
  · intro left isTuple xs fits here ih right fits' same none
    obtain ⟨ys, there, pairs⟩ := (keysEqual_items here _).1 same
    refine (keysEqual_items there _).2 ⟨xs, here, List.Forall₂.flip ?_⟩
    refine List.forall₂_iff_zip.2 ⟨pairs.length_eq, fun {x y} pair => ?_⟩
    obtain ⟨member, member'⟩ := List.of_mem_zip pair
    exact ih x member y (fits'.of_items there y member').1 ((List.forall₂_iff_zip.1 pairs).2 pair)
      fun facing => none (.item here there pair facing)
  · intro left a fits here ih right fits' same none
    obtain ⟨b, there, covers⟩ := (keysEqual_entries fits fits' here).1 same
    obtain ⟨apart, parts⟩ := fits.of_entries here
    have parts' := (fits'.of_entries there).2
    refine (keysEqual_entries fits' fits there).2 ⟨a, here, ?_⟩
    refine laws.covers_symm apart (fun entry member => (parts entry member).1.1)
      (fun entry member => (parts' entry member).1.1) (fun x member y member' key same => ?_) covers
    rw [shape_eq_entries_iff] at here there
    refine ih x member y.2 (parts' y member').2.1 same fun facing => none ?_
    rw [here, there]
    exact .entry member member' key facing
  · intro left a fits here right fits' same none
    obtain ⟨b, there, one⟩ := (keysEqual_object here).1 same
    have equal := isKey_of_object fits fits' here same
    refine (keysEqual_object there).2 ⟨a, here, ?_⟩
    rcases one with one | ⟨hashable, _⟩
    · exact .inl one.symm
    · have alike := (fits.isKey_iff fits').1 equal
      rw [here, there] at alike
      cases alike with
      | identity one => exact .inl one.symm
      | attributes _ kind =>
          exact .inr ⟨((sameClass_iff a b).1 kind).2.2.2 ▸ hashable, laws.symm _ _ fits fits' equal⟩
  · intro left own fits here right fits' same none
    obtain ⟨there, kinds⟩ := (keysEqual_atom fits fits' here).1 same
    exact (keysEqual_atom fits' fits there).2 ⟨here, fun _ =>
      (numberKind?_eq fits fits' here same fun decimal => none (.here decimal)).symm⟩

theorem kind_of_decimal (fits : left.Comparable heap) (fits' : right.Comparable heap)
    (differs : DecimalBeforeOther left right) (same : left.keysEqual right = true) :
    ∃ kind, right.numberKind? = some kind ∧ kind ≠ .decimal := by
  obtain ⟨shown, other⟩ := differs
  obtain ⟨atom, here⟩ := fits.of_kind (by rw [shown]; rfl)
  have number := isSome_numberKind?_congr here ((keysEqual_atom fits fits' here).1 same).1
  rw [shown] at number
  obtain ⟨kind, shown'⟩ := Option.isSome_iff_exists.1 number.symm
  exact ⟨kind, shown', fun decimal => other (decimal ▸ shown')⟩

theorem not_keysEqual_of_decimal (fits : left.Comparable heap) (fits' : right.Comparable heap)
    (differs : DecimalBeforeOther left right) (same : left.keysEqual right = true) :
    right.keysEqual left = false := by
  obtain ⟨kind, shown, other⟩ := kind_of_decimal fits fits' differs same
  obtain ⟨atom, there⟩ := fits'.of_kind (by rw [shown]; rfl)
  rw [Bool.eq_false_iff]
  intro back
  have kinds := ((keysEqual_atom fits' fits there).1 back).2 (isPrimitive_of_kind shown other)
  exact differs.2 (kinds.trans differs.1)

end Value

/-- Keys that are looked for in one place. Floating point numbers and comparable values are looked
for by what they equal, and what has an identity by that. -/
def Bucket.Shared (left right : Value) : Prop :=
  Bucket.ofValue left = Bucket.ofValue right
    ∧ match Bucket.ofValue left with
      | .floating | .comparable _ => left.isKey right = true
      | .identity .. => Value.identical left right = true
      | _ => True

namespace Value

variable {heap : Heap} {left right : Value}

theorem ofValue_items {isTuple : Bool} {xs : List Value} (here : left.shape = .items isTuple xs) :
    Bucket.ofValue left = .sequence isTuple xs.length := by
  cases left with
  | list | growing | tuple =>
      cases here
      rfl
  | _ => cases here

theorem shared_of_object (fits : left.Comparable heap) (fits' : right.Comparable heap)
    {a : ObjectValue} (here : left.shape = .object a) (same : left.keysEqual right = true) :
    Bucket.Shared left right := by
  obtain ⟨b, there, one⟩ := (keysEqual_object here).1 same
  have equal := isKey_of_object fits fits' here same
  have bucket (o : ObjectValue) : Bucket.ofValue (.object o)
      = if o.comparesAttributes && o.hashable then .comparable o.className
        else .identity o.className o.identity := rfl
  -- An object whose class does not say so equals itself only.
  have kinds : a = b ∨ (a.comparesAttributes && a.hashable) = true ∧ sameClass a b = true := by
    rcases one with one | ⟨hashable, _⟩
    · exact .inl (fits.eq_of_identity fits' here there one)
    · have alike := (fits.isKey_iff fits').1 equal
      rw [here, there] at alike
      cases alike with
      | identity one => exact .inl (fits.eq_of_identity fits' here there one)
      | attributes compares kind => exact .inr ⟨by rw [compares, hashable]; rfl, kind⟩
  rw [shape_eq_object_iff] at here there
  subst here there
  rcases kinds with rfl | ⟨comparable, kind⟩
  · refine ⟨rfl, ?_⟩
    rw [bucket]
    split_ifs
    · exact equal
    · exact decide_eq_true rfl
  · obtain ⟨name, _, compares, hashable⟩ := (sameClass_iff a b).1 kind
    rw [Bucket.Shared, bucket, bucket, ← compares, ← hashable, if_pos comparable,
      if_pos comparable, name]
    exact ⟨rfl, equal⟩

theorem Comparable.of_error {thrown : Thrown} (fits : (error thrown).Comparable heap) :
    thrown = heap.errors thrown.identity := by
  cases fits with
  | atom _ now => exact now thrown rfl

theorem shared_of_atom (fits : left.Comparable heap) (fits' : right.Comparable heap) {atom : Atom}
    (here : left.atom? = some atom) (there : right.atom? = some atom)
    (kinds : left.numberKind? = right.numberKind?) : Bucket.Shared left right := by
  have equal := (isKey_atom fits fits' here).2 there
  cases left with
  | list | growing | tuple | set | map | object | method => cases here
  | bool b =>
      obtain rfl := Option.some.inj here
      cases right with
      | bool other =>
          cases b <;> cases other <;>
            simp [Bucket.Shared, Bucket.ofValue, atom?, numeric?, Numeric.amount?] at there ⊢
      | _ => cases kinds
  | int n =>
      obtain rfl := Option.some.inj here
      cases right with
      | int other =>
          simpa [Bucket.Shared, Bucket.ofValue, atom?, numeric?, Numeric.amount?, eq_comm]
            using there
      | _ => cases kinds
  | float =>
      cases right with
      | float => exact ⟨rfl, equal⟩
      | _ => cases kinds
  | decimal =>
      cases right with
      | decimal => exact ⟨rfl, equal⟩
      | _ => cases kinds
  | error thrown =>
      rw [atom?, Option.ite_none_left_eq_some] at here
      obtain rfl := Option.some.inj here.2
      cases right with
      | error other =>
          rw [atom?, Option.ite_none_left_eq_some] at there
          have same : other.identity = thrown.identity := by simpa using there.2
          have one : thrown = other := by rw [fits.of_error, fits'.of_error, same]
          subst one
          exact ⟨rfl, decide_eq_true rfl⟩
      | _ => simp [atom?, numeric?] at there
  | _ =>
      obtain rfl := Option.some.inj here
      cases right with
      | error other =>
          rw [atom?, Option.ite_none_left_eq_some] at there
          cases there.2
      | _ => simp_all [Bucket.Shared, Bucket.ofValue, atom?, numeric?, className, identical]

/-- Values that are one key are looked for in one place, unless a decimal stands before something
else. -/
theorem shared_of_keysEqual (fits : left.Comparable heap) (fits' : right.Comparable heap)
    (same : left.keysEqual right = true) (plain : ¬DecimalBeforeOther left right) :
    Bucket.Shared left right := by
  cases here : left.shape with
  | items isTuple xs =>
      obtain ⟨ys, there, pairs⟩ := (keysEqual_items here _).1 same
      rw [Bucket.Shared, ofValue_items here, ofValue_items there, pairs.length_eq]
      exact ⟨rfl, trivial⟩
  | entries a =>
      obtain ⟨b, there, covers⟩ := (keysEqual_entries fits fits' here).1 same
      rw [shape_eq_entries_iff] at here there
      rw [here, there]
      exact ⟨congrArg Bucket.mapping covers.1, trivial⟩
  | object a => exact shared_of_object fits fits' here same
  | atom atom =>
      obtain ⟨own, _, here⟩ := fits.of_atom here
      exact shared_of_atom fits fits' here ((keysEqual_atom fits fits' here).1 same).1
        (numberKind?_eq fits fits' here same plain)

theorem not_shared_of_decimal (fits : left.Comparable heap) (fits' : right.Comparable heap)
    (differs : DecimalBeforeOther left right) (same : left.keysEqual right = true) :
    ¬Bucket.Shared left right := by
  obtain ⟨kind, shown, other⟩ := kind_of_decimal fits fits' differs same
  rintro ⟨one, _⟩
  cases left with
  | decimal =>
      cases right with
      | decimal => exact other (Option.some.inj shown).symm
      | bool | int | float => simp [Bucket.ofValue] at one
      | _ => cases shown
  | _ => cases differs.1

/-- One is a boolean, and the other is a number. -/
def BooleanAgainstNumber (left right : Value) : Prop :=
  left.numberKind?.isSome = true ∧ right.numberKind?.isSome = true
    ∧ (left.numberKind? = some .boolean ↔ right.numberKind? ≠ some .boolean)

/-- One is a list, and the other is a tuple. -/
def ListAgainstTuple (left right : Value) : Prop :=
  ∃ isTuple xs ys, left.shape = .items isTuple xs ∧ right.shape = .items (!isTuple) ys

/-- Values that are one key face one another with booleans against numbers only where there are
decimals. -/
theorem decimal_of_boolean (fits : left.Comparable heap) (fits' : right.Comparable heap)
    (same : left.keysEqual right = true) (facing : Facing BooleanAgainstNumber left right) :
    Facing DecimalBeforeOther left right := by
  by_contra none
  obtain ⟨x, y, ⟨number, _, differ⟩, good, good', one, back⟩ := facing.keysEqual fits fits' same
  have plain : ¬DecimalBeforeOther x y := by
    intro decimal
    have one' := not_keysEqual_of_decimal good good' decimal one
    rw [back (keysEqual_symm fits right fits' same none)] at one'
    cases one'
  obtain ⟨atom, here⟩ := good.of_kind number
  rw [numberKind?_eq good good' here one plain] at differ
  exact iff_not_self differ

/-- The default equality of keys always answers, is reflexive and transitive, and equates no list
with a tuple. What it equates it equates the other way round as well, is looked for in one place and
has no boolean against a number, unless a decimal stands before something else. -/
theorem key_equality_is_lawful_but_for_decimals (heap : Heap) :
    (∀ left right : Value, left.Comparable heap → right.Comparable heap →
        (left.keysEqual? right).isSome = true)
      ∧ (∀ key : Value, key.Comparable heap → key.keysEqual key = true)
      ∧ (∀ left middle right : Value, left.Comparable heap → middle.Comparable heap →
          right.Comparable heap → left.keysEqual middle = true → middle.keysEqual right = true →
          left.keysEqual right = true)
      ∧ ∀ left right : Value, left.Comparable heap → right.Comparable heap →
          left.keysEqual right = true →
          (right.keysEqual left = true ↔ ¬Facing DecimalBeforeOther left right)
            ∧ (Bucket.Shared left right ↔ ¬DecimalBeforeOther left right)
            ∧ (Facing BooleanAgainstNumber left right → Facing DecimalBeforeOther left right)
            ∧ ¬Facing ListAgainstTuple left right := by
  refine ⟨fun left right fits => keysEqual?_isSome fits right,
    fun key fits => keysEqual_refl fits, fun left middle right fits fits' fits'' =>
    keysEqual_trans fits middle right fits' fits'', ?_⟩
  intro left right fits fits' same
  refine ⟨⟨fun back facing => ?_, keysEqual_symm fits right fits' same⟩,
    ⟨fun shared decimal => ?_, shared_of_keysEqual fits fits' same⟩,
    decimal_of_boolean fits fits' same, fun facing => ?_⟩
  · obtain ⟨x, y, decimal, good, good', one, turned⟩ := facing.keysEqual fits fits' same
    have one' := not_keysEqual_of_decimal good good' decimal one
    rw [turned back] at one'
    cases one'
  · exact not_shared_of_decimal fits fits' decimal same shared
  · obtain ⟨x, y, ⟨isTuple, xs, ys, here, there⟩, _, _, one, _⟩ := facing.keysEqual fits fits' same
    obtain ⟨zs, shape, _⟩ := (keysEqual_items here y).1 one
    cases isTuple <;> cases there.symm.trans shape

theorem decimal_in_list_is_one_from_one_side :
    (list [decimal (.finite false 1 0) 0]).keysEqual (list [int 1]) = true
      ∧ (list [int 1]).keysEqual (list [decimal (.finite false 1 0) 0]) ≠ true := by
  let heap : Heap := ⟨fun _ => [], fun identity => ⟨"Object", [], .none, false, true, identity⟩,
    fun identity => ⟨.value, none, none, [], identity⟩⟩
  have one : (decimal (.finite false 1 0) 0).Comparable heap := .atom rfl (by simp)
  have one' : (int 1).Comparable heap := .atom rfl (by simp)
  have fits : (list [decimal (.finite false 1 0) 0]).Comparable heap :=
    .list (List.forall_mem_singleton.2 one)
  have fits' : (list [int 1]).Comparable heap := .list (List.forall_mem_singleton.2 one')
  have same : (list [decimal (.finite false 1 0) 0]).keysEqual (list [int 1]) = true := by
    refine (keysEqual_items rfl _).2 ⟨[int 1], rfl, .cons ?_ .nil⟩
    exact (keysEqual_atom one one' rfl).2
      ⟨by simp [atom?, numeric?, Numeric.amount?, Amount.signed],
        fun primitive => by cases primitive⟩
  refine ⟨same, fun back => ?_⟩
  refine ((key_equality_is_lawful_but_for_decimals heap).2.2.2 _ _ fits fits' same).1.1 back ?_
  exact .item rfl rfl List.mem_cons_self (.here ⟨rfl, by decide⟩)

theorem boolean_is_taken_for_one :
    (decimal (.finite false 1 0) 0).keysEqual (bool true) = true
      ∧ (bool true).keysEqual (decimal (.finite false 1 0) 0) = false
      ∧ Bucket.ofValue (decimal (.finite false 1 0) 0) ≠ Bucket.ofValue (bool true)
      ∧ (map [(int 1, str "x")]).keysEqual (map [(bool true, str "x")]) = true := by
  have equal : (Decimal.finite false 1 0).equals (.ofInt 1) = true := by decide +kernel
  refine ⟨?_, ?_, by decide, ?_⟩
  · simp [keysEqual, keysEqual?, leavesEqual?, identical, usesOwnEquality, equals?, atomsEqual,
      numeric?, Numeric.isSignaling, Decimal.isSignaling, Numeric.equals, equal]
  · simp [keysEqual, keysEqual?, leavesEqual?]
  · simp [keysEqual, keysEqual?, leavesEqual?, identical, equals?, atomsEqual, numeric?,
      Numeric.isSignaling, Numeric.equals, sameKeys, isKey, equals, keyEntriesEqual?, lookup?]

end Value

end GraphQL
