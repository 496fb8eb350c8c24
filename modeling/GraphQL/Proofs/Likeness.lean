import GraphQL.Proofs.Amounts
import Mathlib.Data.List.Pairwise

/-!
Equality of values is an equivalence, as long as every object compares its attributes or itself, no
number is no number, and all values are looked at in one moment, so that what is the same is alike.
-/

namespace GraphQL

/-- A relation that is an equivalence on what has a property. -/
structure EquivalentOn {α : Type} (good : α → Prop) (related : α → α → Prop) : Prop where
  refl : ∀ x, good x → related x x
  symm : ∀ x y, good x → good y → related x y → related y x
  trans : ∀ x y z, good x → good y → good z → related x y → related y z → related x z

/-- Entries have counterparts in a list of the same length. -/
def Covers {κ ν : Type} (key : κ → κ → Prop) (value : ν → ν → Prop) (a b : List (κ × ν)) : Prop :=
  a.length = b.length ∧ ∀ entry ∈ a, ∃ other ∈ b, key entry.1 other.1 ∧ value entry.2 other.2

/-- Entries under keys that are told apart. -/
def Apart {κ ν : Type} (key : κ → κ → Prop) (a : List (κ × ν)) : Prop :=
  a.Pairwise fun earlier later => ¬key earlier.1 later.1

namespace EquivalentOn

variable {α κ ν : Type} {good : α → Prop} {related : α → α → Prop}
  {goodKey : κ → Prop} {key : κ → κ → Prop} {goodValue : ν → Prop} {value : ν → ν → Prop}

theorem eq : EquivalentOn (fun _ : α => True) Eq :=
  ⟨fun _ _ => rfl, fun _ _ _ _ => Eq.symm, fun _ _ _ _ _ _ => Eq.trans⟩

theorem forall₂_trans {xs ys zs : List α}
    (carries : ∀ x ∈ xs, ∀ y ∈ ys, ∀ z ∈ zs, related x y → related y z → related x z)
    (first : List.Forall₂ related xs ys) (second : List.Forall₂ related ys zs) :
    List.Forall₂ related xs zs := by
  induction first generalizing zs with
  | nil => exact second
  | cons same _ ih =>
      cases second with
      | cons same' rest =>
          refine .cons (carries _ List.mem_cons_self _ List.mem_cons_self _ List.mem_cons_self same
            same') (ih (fun x inside y inside' z inside'' => ?_) rest)
          exact carries x (List.mem_cons_of_mem _ inside) y (List.mem_cons_of_mem _ inside') z
            (List.mem_cons_of_mem _ inside'')

theorem items (laws : EquivalentOn good related) :
    EquivalentOn (fun xs : List α => ∀ x ∈ xs, good x) (List.Forall₂ related) where
  refl := by
    intro xs each
    induction xs with
    | nil => exact .nil
    | cons x rest ih =>
        obtain ⟨head, tail⟩ := List.forall_mem_cons.1 each
        exact .cons (laws.refl x head) (ih tail)
  symm := by
    intro xs ys each each' pairs
    induction pairs with
    | nil => exact .nil
    | cons same _ ih =>
        obtain ⟨head, tail⟩ := List.forall_mem_cons.1 each
        obtain ⟨head', tail'⟩ := List.forall_mem_cons.1 each'
        exact .cons (laws.symm _ _ head head' same) (ih tail tail')
  trans := by
    intro xs ys zs each each' each'' first second
    exact forall₂_trans (fun x inside y inside' z inside'' =>
      laws.trans x y z (each x inside) (each' y inside') (each'' z inside'')) first second

theorem entry_unique (laws : EquivalentOn goodKey key) {a : List (κ × ν)} (apart : Apart key a)
    (each : ∀ entry ∈ a, goodKey entry.1) {k : κ} (fits : goodKey k) {entry other : κ × ν}
    (member : entry ∈ a) (member' : other ∈ a) (found : key k entry.1) (found' : key k other.1) :
    entry = other := by
  have clash {x y : κ} (fits' : goodKey x) (fits'' : goodKey y) (one : key k x) (two : key k y) :
      key x y := laws.trans _ _ _ fits' fits fits'' (laws.symm _ _ fits fits' one) two
  induction a with
  | nil => cases member
  | cons first rest ih =>
      obtain ⟨differs, later⟩ := List.pairwise_cons.1 apart
      obtain ⟨head, tail⟩ := List.forall_mem_cons.1 each
      rcases List.mem_cons.1 member with rfl | inside
      · rcases List.mem_cons.1 member' with rfl | inside'
        · rfl
        · exact absurd (clash head (tail _ inside') found found') (differs _ inside')
      · rcases List.mem_cons.1 member' with rfl | inside'
        · exact absurd (clash head (tail _ inside) found' found) (differs _ inside)
        · exact ih later tail inside inside'

/-- Where every item has a counterpart, no two have the same, and there are no more counterparts
than items, every counterpart is one. -/
theorem exists_of_covered {α β : Type} {fits : α → β → Prop} {a : List α} {b : List β}
    (short : b.length ≤ a.length) (covered : ∀ x ∈ a, ∃ y ∈ b, fits x y)
    (apart : a.Pairwise fun x x' => ∀ y ∈ b, fits x y → ¬fits x' y) :
    ∀ y ∈ b, ∃ x ∈ a, fits x y := by
  induction a generalizing b with
  | nil =>
      intro y member
      rw [List.eq_nil_of_length_eq_zero (Nat.le_zero.1 short)] at member
      cases member
  | cons first rest ih =>
      obtain ⟨own, there, fit⟩ := covered first List.mem_cons_self
      obtain ⟨before, after, rfl⟩ := List.append_of_mem there
      obtain ⟨differs, later⟩ := List.pairwise_cons.1 apart
      have within : ∀ y ∈ before ++ after, y ∈ before ++ own :: after := by
        intro y member
        rcases List.mem_append.1 member with left | right
        · exact List.mem_append_left _ left
        · exact List.mem_append_right _ (List.mem_cons_of_mem _ right)
      have others : ∀ x ∈ rest, ∃ y ∈ before ++ after, fits x y := by
        intro x member
        obtain ⟨y, inside, fit'⟩ := covered x (List.mem_cons_of_mem _ member)
        refine ⟨y, ?_, fit'⟩
        rcases List.mem_append.1 inside with left | right
        · exact List.mem_append_left _ left
        · rcases List.mem_cons.1 right with rfl | right
          · exact absurd fit' (differs x member y inside fit)
          · exact List.mem_append_right _ right
      have fewer : (before ++ after).length ≤ rest.length := by
        simp only [List.length_append, List.length_cons] at short ⊢
        omega
      have found := ih fewer others (later.imp fun away y member => away y (within y member))
      intro y member
      rcases List.mem_append.1 member with left | right
      · obtain ⟨x, inside, fit'⟩ := found y (List.mem_append_left _ left)
        exact ⟨x, List.mem_cons_of_mem _ inside, fit'⟩
      · rcases List.mem_cons.1 right with rfl | right
        · exact ⟨first, List.mem_cons_self, fit⟩
        · obtain ⟨x, inside, fit'⟩ := found y (List.mem_append_right _ right)
          exact ⟨x, List.mem_cons_of_mem _ inside, fit'⟩

theorem covers_refl {a : List (κ × ν)} (laws : EquivalentOn goodKey key)
    (each : ∀ entry ∈ a, goodKey entry.1) (same : ∀ entry ∈ a, value entry.2 entry.2) :
    Covers key value a a :=
  ⟨rfl, fun entry member => ⟨entry, member, laws.refl _ (each entry member), same entry member⟩⟩

theorem covers_trans {a b c : List (κ × ν)} (laws : EquivalentOn goodKey key)
    (each : ∀ entry ∈ a, goodKey entry.1) (each' : ∀ entry ∈ b, goodKey entry.1)
    (each'' : ∀ entry ∈ c, goodKey entry.1)
    (carries : ∀ x ∈ a, ∀ y ∈ b, ∀ z ∈ c, value x.2 y.2 → value y.2 z.2 → value x.2 z.2)
    (first : Covers key value a b) (second : Covers key value b c) : Covers key value a c := by
  refine ⟨first.1.trans second.1, fun x member => ?_⟩
  obtain ⟨y, member', near, same⟩ := first.2 x member
  obtain ⟨z, member'', near', same'⟩ := second.2 y member'
  exact ⟨z, member'',
    laws.trans _ _ _ (each x member) (each' y member') (each'' z member'') near near',
    carries x member y member' z member'' same same'⟩

theorem covers_symm {a b : List (κ × ν)} {back : ν → ν → Prop} (laws : EquivalentOn goodKey key)
    (apart : Apart key a) (each : ∀ entry ∈ a, goodKey entry.1)
    (each' : ∀ entry ∈ b, goodKey entry.1)
    (turns : ∀ x ∈ a, ∀ y ∈ b, key x.1 y.1 → value x.2 y.2 → back y.2 x.2)
    (covers : Covers key value a b) : Covers key back b a := by
  have separate : a.Pairwise fun x x' => ∀ y ∈ b,
      key x.1 y.1 ∧ value x.2 y.2 → ¬(key x'.1 y.1 ∧ value x'.2 y.2) := by
    refine apart.imp_of_mem fun inside inside' away y member one two => away ?_
    exact laws.trans _ _ _ (each _ inside) (each' y member) (each _ inside') one.1
      (laws.symm _ _ (each _ inside') (each' y member) two.1)
  refine ⟨covers.1.symm, fun y member => ?_⟩
  obtain ⟨x, inside, near, same⟩ := exists_of_covered covers.1.ge covers.2 separate y member
  exact ⟨x, inside, laws.symm _ _ (each x inside) (each' y member) near,
    turns x inside y member near same⟩

theorem find?_eq_some (laws : EquivalentOn goodKey key) {a : List (κ × ν)} (apart : Apart key a)
    (each : ∀ entry ∈ a, goodKey entry.1) {k : κ} (fits : goodKey k) (test : κ → Bool)
    (tests : ∀ entry ∈ a, test entry.1 = true → key k entry.1) {entry : κ × ν} (member : entry ∈ a)
    (found : test entry.1 = true) : a.find? (fun other => test other.1) = some entry := by
  cases located : a.find? fun other => test other.1 with
  | none => exact absurd found (List.find?_eq_none.1 located entry member)
  | some other =>
      have inside := List.mem_of_find?_eq_some located
      have passes : test other.1 = true :=
        List.find?_some (p := fun other : κ × ν => test other.1) located
      rw [laws.entry_unique apart each fits inside member (tests other inside passes)
        (tests entry member found)]

end EquivalentOn

/-- What a value without parts is, as far as equality can tell. -/
inductive Atom where
  | null
  | undefined
  | number (amount : Amount)
  | text (value : String)
  | bytes (value : List UInt8)
  | date (value : Date)
  | moment (isNaive : Bool) (instant : Int)
  | member (enumeration : Nat) (name : String)
  | error (identity : Nat)
  | deferred (ticket : Nat)
  | callable (handle : Nat)
  | iterator (handle : Nat)
  | type (ref : TypeRef)

namespace Value

/-- The atom that a value is, unless it has parts, is no number or compares as nothing else does. -/
def atom? : Value → Option Atom
  | null => some .null
  | undefined => some .undefined
  | str text => some (.text text)
  | bytes value => some (.bytes value)
  | date value => some (.date value)
  | timestamp value => some (.moment value.isNaive value.instant)
  | member enumeration _ name _ => some (.member enumeration name)
  | error thrown => if thrown.kind = .response then none else some (.error thrown.identity)
  | deferred ticket => some (.deferred ticket)
  | callable handle => some (.callable handle)
  | iterator handle => some (.iterator handle)
  | type ref _ _ => some (.type ref)
  | value => (value.numeric?.bind Numeric.amount?).map .number

theorem isKey_eq_true_iff (left right : Value) :
    left.isKey right = true
      ↔ (if identical left right then some true else left.equals? right) = some true := by
  rw [isKey, Bool.or_eq_true, equals, beq_iff_eq]
  by_cases same : identical left right = true
  · simp [same]
  · simp [same]

theorem equalItems?_iff (xs ys : List Value) :
    equalItems? xs ys = some true ↔ List.Forall₂ (fun x y => isKey x y = true) xs ys := by
  induction xs generalizing ys with
  | nil => cases ys <;> simp [equalItems?]
  | cons x xs ih =>
      cases ys with
      | nil => simp [equalItems?]
      | cons y ys =>
          rw [equalItems?, List.forall₂_cons, ← ih, isKey_eq_true_iff]
          generalize (if identical x y then some true else x.equals? y) = answer
          rcases answer with - | (- | -) <;> simp

theorem entriesFound?_iff (a b : List (Value × Value)) :
    entriesFound? a b = some true ↔ ∀ entry ∈ a, ∃ other,
      b.find? (fun other => entry.1.isKey other.1) = some other ∧ entry.2.isKey other.2 = true := by
  induction a with
  | nil => simp [entriesFound?]
  | cons first rest ih =>
      obtain ⟨key, value⟩ := first
      have test : (fun other : Value × Value =>
          identical key other.1 || equals? key other.1 == some true)
            = fun other => key.isKey other.1 := rfl
      rw [entriesFound?, test, List.forall_mem_cons, ← ih]
      cases b.find? fun other => key.isKey other.1 with
      | none => simp
      | some other =>
          have answer := isKey_eq_true_iff value other.2
          simp only [Option.some.injEq, exists_eq_left', answer]
          generalize (if identical value other.2 then some true else value.equals? other.2) = answer
          rcases answer with - | (- | -) <;> simp

theorem attributesFound?_iff (a b : List (String × Value)) :
    attributesFound? a b = some true ↔ ∀ entry ∈ a, ∃ found,
      b.lookup entry.1 = some found ∧ entry.2.isKey found = true := by
  induction a with
  | nil => simp [attributesFound?]
  | cons first rest ih =>
      obtain ⟨name, value⟩ := first
      rw [attributesFound?, List.forall_mem_cons, ← ih]
      cases b.lookup name with
      | none => simp
      | some found =>
          have answer := isKey_eq_true_iff value found
          simp only [Option.some.injEq, exists_eq_left', answer]
          generalize (if identical value found then some true else value.equals? found) = answer
          rcases answer with - | (- | -) <;> simp

theorem atom?_of_numeric {value : Value} {number : Numeric} (read : value.numeric? = some number) :
    value.atom? = number.amount?.map .number := by
  cases value with
  | bool | int | float | decimal =>
      rw [atom?, read]
      rfl
      all_goals simp
  | _ => cases read

theorem atom?_ne_number {value : Value} (plain : value.numeric? = none) (amount : Amount) :
    value.atom? ≠ some (.number amount) := by
  cases value with
  | error thrown =>
      rw [atom?]
      split <;> simp
  | _ => simp_all [atom?, numeric?]

theorem Numeric.amount?_of_isSignaling {number : Numeric} (signals : number.isSignaling = true) :
    number.amount? = none := by
  cases number with
  | decimal d =>
      cases d with
      | nan => rfl
      | _ => cases signals
  | _ => cases signals

theorem atomsEqual_iff {left right : Value} {atom : Atom} (here : left.atom? = some atom)
    (proper : ∀ thrown, right = error thrown → thrown.kind ≠ .response) :
    atomsEqual left right = some true ↔ some atom = right.atom? := by
  cases first : left.numeric? with
  | some number =>
      rw [atom?_of_numeric first] at here
      obtain ⟨amount, stands, rfl⟩ := Option.map_eq_some_iff.1 here
      have quiet : number.isSignaling = false := by
        by_contra signals
        rw [Numeric.amount?_of_isSignaling (by simpa using signals)] at stands
        cases stands
      cases second : right.numeric? with
      | some other =>
          rw [atom?_of_numeric second]
          simp only [atomsEqual, first, second, quiet, Bool.false_or]
          by_cases signals : other.isSignaling = true
          · simp [signals, Numeric.amount?_of_isSignaling signals]
          · simp [signals, Numeric.equals_iff, stands]
      | none =>
          refine iff_of_false ?_ (atom?_ne_number second amount).symm
          cases left with
          | bool | int | float | decimal => simp [atomsEqual, second]
          | _ => cases first
  | none =>
      cases left with
      | bool | int | float | decimal => cases first
      | list | growing | tuple | set | map | object | method => cases here
      | error thrown =>
          rw [atom?, Option.ite_none_left_eq_some] at here
          rw [← Option.some.inj here.2]
          cases right with
          | error other => simp [atomsEqual, numeric?, atom?, proper other rfl]
          | _ => simp [atomsEqual, numeric?, atom?]
      | _ =>
          rw [← Option.some.inj here]
          cases right with
          | error other => simp [atomsEqual, numeric?, atom?, proper other rfl]
          | _ => simp [atomsEqual, numeric?, atom?, Timestamp.equals]

end Value

/-- What handles and identities stand for at one moment. -/
structure Heap where
  lists : Nat → List Value
  objects : Nat → ObjectValue
  errors : Nat → Thrown

namespace Value

/-- Values of one moment that equality is fit for. The keys of a map are told apart, and so are the
names of attributes; response errors, sets, methods and what is no number are left out. -/
inductive Comparable (heap : Heap) : Value → Prop
  | atom {value : Value} {atom : Atom} (read : value.atom? = some atom)
      (thrown : ∀ thrown, value = .error thrown → thrown = heap.errors thrown.identity) :
      Comparable heap value
  | list {items : List Value} (each : ∀ item ∈ items, Comparable heap item) :
      Comparable heap (.list items)
  | growing {handle : Nat} {items : List Value} (now : items = heap.lists handle)
      (each : ∀ item ∈ items, Comparable heap item) : Comparable heap (.growing handle items)
  | tuple {items : List Value} (each : ∀ item ∈ items, Comparable heap item) :
      Comparable heap (.tuple items)
  | map {entries : List (Value × Value)} (keys : ∀ entry ∈ entries, Comparable heap entry.1)
      (values : ∀ entry ∈ entries, Comparable heap entry.2)
      (apart : Apart (fun left right => left.isKey right = true) entries) :
      Comparable heap (.map entries)
  | object {object : ObjectValue} (now : object = heap.objects object.identity)
      (each : object.comparesAttributes = true →
        ∀ entry ∈ object.attributes, Comparable heap entry.2)
      (names : Apart Eq object.attributes) : Comparable heap (.object object)

inductive Shape where
  | items (isTuple : Bool) (items : List Value)
  | entries (entries : List (Value × Value))
  | object (object : ObjectValue)
  | atom (atom : Option Atom)

def shape : Value → Shape
  | list items | growing _ items => .items false items
  | tuple items => .items true items
  | map entries => .entries entries
  | object o => .object o
  | value => .atom value.atom?

/-- Alike on the outside, with parts that are related. -/
inductive Shape.Alike (related : Value → Value → Prop) : Shape → Shape → Prop
  | items {isTuple : Bool} {xs ys : List Value} (pairs : List.Forall₂ related xs ys) :
      Alike related (.items isTuple xs) (.items isTuple ys)
  | entries {a b : List (Value × Value)} (covers : Covers related related a b) :
      Alike related (.entries a) (.entries b)
  | identity {a b : ObjectValue} (same : a.identity = b.identity) :
      Alike related (.object a) (.object b)
  | attributes {a b : ObjectValue} (compares : a.comparesAttributes = true)
      (kind : sameClass a b = true) (covers : Covers Eq related a.attributes b.attributes) :
      Alike related (.object a) (.object b)
  | atom (atom : Option Atom) : Alike related (.atom atom) (.atom atom)

theorem sameClass_iff (a b : ObjectValue) :
    sameClass a b = true ↔ a.className = b.className ∧ a.stringForm = b.stringForm
      ∧ a.comparesAttributes = b.comparesAttributes ∧ a.hashable = b.hashable := by
  simp [sameClass, and_assoc]

variable {heap : Heap}

theorem shape_eq_atom_iff {value : Value} {atom : Atom} :
    value.shape = .atom (some atom) ↔ value.atom? = some atom := by
  cases value with
  | list | growing | tuple | map | object =>
      exact iff_of_false (fun same => by cases same) (fun same => by cases same)
  | _ => rw [shape, Shape.atom.injEq] <;> simp

theorem shape_eq_items_iff {value : Value} {xs : List Value} :
    value.shape = .items false xs ↔ value.listed? = some xs := by
  cases value <;> simp [shape, listed?]

theorem shape_eq_tuple_iff {value : Value} {xs : List Value} :
    value.shape = .items true xs ↔ value = .tuple xs := by
  cases value <;> simp [shape]

theorem shape_eq_entries_iff {value : Value} {entries : List (Value × Value)} :
    value.shape = .entries entries ↔ value = .map entries := by
  cases value <;> simp [shape]

theorem shape_eq_object_iff {value : Value} {object : ObjectValue} :
    value.shape = .object object ↔ value = .object object := by
  cases value <;> simp [shape]

theorem Comparable.not_response {value : Value} (fits : value.Comparable heap) :
    ∀ thrown, value = .error thrown → thrown.kind ≠ .response := by
  rintro thrown rfl response
  cases fits with
  | atom read => simp [atom?, response] at read

/-- Values of one moment below a given size. -/
def Below (heap : Heap) (bound : Nat) (value : Value) : Prop :=
  value.Comparable heap ∧ sizeOf value < bound

/-- Equality is an equivalence on the values below a given size. -/
abbrev LawfulBelow (heap : Heap) (bound : Nat) : Prop :=
  EquivalentOn (Below heap bound) fun left right => left.isKey right = true

theorem equals_listed {left : Value} {xs : List Value} (listed : left.listed? = some xs)
    (right : Value) :
    left.equals right = true ↔ ∃ ys, right.listed? = some ys
      ∧ List.Forall₂ (fun x y => isKey x y = true) xs ys := by
  have answer : left.equals? right = right.listed?.elim (some false) fun ys =>
      if xs.length != ys.length then some false else equalItems? xs ys := by
    cases left with
    | list | growing =>
        obtain rfl := Option.some.inj listed
        unfold equals?
        cases right.listed? <;> rfl
    | _ => cases listed
  rw [equals, beq_iff_eq, answer]
  cases right.listed? with
  | none => simp
  | some ys =>
      simp only [Option.elim_some, Option.some.injEq, exists_eq_left', ← equalItems?_iff]
      by_cases size : xs.length = ys.length
      · simp [size]
      · refine iff_of_false (by simp [size]) fun same => size ?_
        exact ((equalItems?_iff xs ys).1 same).length_eq

theorem equals_tuple (xs : List Value) (right : Value) :
    (tuple xs).equals right = true ↔ ∃ ys, right = tuple ys
      ∧ List.Forall₂ (fun x y => isKey x y = true) xs ys := by
  rw [equals, beq_iff_eq]
  cases right with
  | tuple ys => simp [equals?, equalItems?_iff]
  | _ => simp [equals?]

theorem equals_map (a : List (Value × Value)) {right : Value}
    (proper : ∀ thrown, right = error thrown → thrown.kind ≠ .response) :
    (map a).equals right = true ↔ ∃ b, right = map b ∧ a.length = b.length
      ∧ ∀ entry ∈ a, ∃ other, b.find? (fun other => entry.1.isKey other.1) = some other
        ∧ entry.2.isKey other.2 = true := by
  rw [equals, beq_iff_eq]
  cases right with
  | map b =>
      rw [equals?]
      by_cases size : a.length = b.length <;> simp [size, entriesFound?_iff]
  | error thrown =>
      obtain ⟨kind, message, extensions, path, identity⟩ := thrown
      have kind_ := proper _ rfl
      cases kind <;> simp [equals?] at kind_ ⊢
  | _ => simp [equals?]

theorem equals_object (o : ObjectValue) (right : Value) :
    (object o).equals right = true ↔ ∃ other, right = object other
      ∧ (o.identity = other.identity
        ∨ o.comparesAttributes = true ∧ sameClass o other = true
          ∧ o.attributes.length = other.attributes.length
          ∧ ∀ entry ∈ o.attributes, ∃ found, other.attributes.lookup entry.1 = some found
            ∧ entry.2.isKey found = true) := by
  obtain ⟨className, attributes, stringForm, comparesAttributes, hashable, identity⟩ := o
  rw [equals, beq_iff_eq]
  cases right with
  | object other =>
      simp only [object.injEq, exists_eq_left', ← attributesFound?_iff]
      rw [equals?]
      by_cases same : identity = other.identity
      · simp [same]
      · cases comparesAttributes with
        | false => simp [same]
        | true =>
            have class_ : sameClass ⟨className, [], stringForm, true, hashable, identity⟩ other
                = sameClass ⟨className, attributes, stringForm, true, hashable, identity⟩ other :=
              rfl
            rw [class_]
            by_cases kind : sameClass
              ⟨className, attributes, stringForm, true, hashable, identity⟩ other = true
            · by_cases size : attributes.length = other.attributes.length <;>
                simp [same, kind, size]
            · simp [same, kind]
  | _ => simp [equals?]

theorem equals?_atom {left : Value} {atom : Atom} (read : left.atom? = some atom) (right : Value) :
    left.equals? right = atomsEqual left right := by
  cases left with
  | list | growing | tuple | map | object | set => cases read
  | error thrown =>
      obtain ⟨kind, message, extensions, path, identity⟩ := thrown
      cases kind <;> simp [atom?] at read <;> simp [equals?]
  | _ => simp [equals?]

theorem equals_atom {left right : Value} {atom : Atom} (read : left.atom? = some atom)
    (proper : ∀ thrown, right = error thrown → thrown.kind ≠ .response) :
    left.equals right = true ↔ some atom = right.atom? := by
  rw [← atomsEqual_iff read proper, equals, beq_iff_eq, equals?_atom read]

theorem Comparable.of_items {value : Value} (fits : value.Comparable heap) {isTuple : Bool}
    {xs : List Value} (here : value.shape = .items isTuple xs) :
    ∀ x ∈ xs, x.Comparable heap ∧ sizeOf x < sizeOf value := by
  intro x member
  have smaller := List.sizeOf_lt_of_mem member
  cases fits with
  | atom read =>
      rw [shape_eq_atom_iff.2 read] at here
      cases here
  | list each | tuple each =>
      cases here
      refine ⟨each x member, ?_⟩
      simp only [list.sizeOf_spec, tuple.sizeOf_spec]
      omega
  | growing now each =>
      cases here
      refine ⟨each x member, ?_⟩
      simp only [growing.sizeOf_spec]
      omega
  | map | object => cases here

theorem Comparable.of_entries {value : Value} (fits : value.Comparable heap)
    {a : List (Value × Value)} (here : value.shape = .entries a) :
    Apart (fun left right => left.isKey right = true) a
      ∧ ∀ entry ∈ a, (entry.1.Comparable heap ∧ sizeOf entry.1 < sizeOf value)
        ∧ entry.2.Comparable heap ∧ sizeOf entry.2 < sizeOf value := by
  cases fits with
  | atom read =>
      rw [shape_eq_atom_iff.2 read] at here
      cases here
  | map keys values apart =>
      cases here
      refine ⟨apart, fun entry member => ?_⟩
      have smaller := List.sizeOf_lt_of_mem member
      obtain ⟨key, value⟩ := entry
      simp only [Prod.mk.sizeOf_spec, map.sizeOf_spec] at smaller ⊢
      exact ⟨⟨keys _ member, by omega⟩, values _ member, by omega⟩
  | list | growing | tuple | object => cases here

theorem Comparable.of_object {value : Value} (fits : value.Comparable heap) {o : ObjectValue}
    (here : value.shape = .object o) :
    o = heap.objects o.identity ∧ Apart Eq o.attributes
      ∧ (o.comparesAttributes = true →
        ∀ entry ∈ o.attributes, entry.2.Comparable heap ∧ sizeOf entry.2 < sizeOf value) := by
  cases fits with
  | atom read =>
      rw [shape_eq_atom_iff.2 read] at here
      cases here
  | object now each names =>
      cases here
      refine ⟨now, names, fun compares entry member => ⟨each compares entry member, ?_⟩⟩
      have smaller := List.sizeOf_lt_of_mem member
      obtain ⟨name, value⟩ := entry
      obtain ⟨className, attributes, stringForm, comparesAttributes, hashable, identity⟩ := o
      simp only [Prod.mk.sizeOf_spec, object.sizeOf_spec, ObjectOf.mk.sizeOf_spec] at smaller ⊢
      omega
  | list | growing | tuple | map => cases here

theorem Comparable.of_atom {value : Value} (fits : value.Comparable heap) {atom : Option Atom}
    (here : value.shape = .atom atom) :
    ∃ own, atom = some own ∧ value.atom? = some own := by
  cases fits with
  | @atom _ own read =>
      rw [shape_eq_atom_iff.2 read] at here
      exact ⟨own, (Shape.atom.inj here).symm, read⟩
  | list | growing | tuple | map | object => cases here

variable {bound : Nat} {left right : Value}

theorem Below.of_items (fits : Below heap (bound + 1) left) {isTuple : Bool} {xs : List Value}
    (here : left.shape = .items isTuple xs) : ∀ x ∈ xs, Below heap bound x := by
  intro x member
  obtain ⟨part, smaller⟩ := fits.1.of_items here x member
  have := fits.2
  exact ⟨part, by omega⟩

theorem Below.of_entries (fits : Below heap (bound + 1) left) {a : List (Value × Value)}
    (here : left.shape = .entries a) :
    ∀ entry ∈ a, Below heap bound entry.1 ∧ Below heap bound entry.2 := by
  intro entry member
  obtain ⟨⟨key, smaller⟩, value, smaller'⟩ := (fits.1.of_entries here).2 entry member
  have := fits.2
  exact ⟨⟨key, by omega⟩, value, by omega⟩

theorem Below.of_object (fits : Below heap (bound + 1) left) {o : ObjectValue}
    (here : left.shape = .object o) (compares : o.comparesAttributes = true) :
    ∀ entry ∈ o.attributes, Below heap bound entry.2 := by
  intro entry member
  obtain ⟨part, smaller⟩ := (fits.1.of_object here).2.2 compares entry member
  have := fits.2
  exact ⟨part, by omega⟩

theorem Comparable.eq_of_identity (fits : left.Comparable heap) (fits' : right.Comparable heap)
    {a b : ObjectValue} (here : left.shape = .object a) (there : right.shape = .object b)
    (same : a.identity = b.identity) : a = b := by
  rw [(fits.of_object here).1, (fits'.of_object there).1, same]

/-- Being alike is an equivalence if being equal is one on the parts. -/
theorem equivalentOn_alike (laws : LawfulBelow heap bound) :
    EquivalentOn (Below heap (bound + 1)) fun left right =>
      Shape.Alike (fun left right => left.isKey right = true) left.shape right.shape where
  refl := by
    intro x fits
    cases here : x.shape with
    | items isTuple xs => exact .items (laws.items.refl xs (fits.of_items here))
    | entries a =>
        have parts := fits.of_entries here
        exact .entries (laws.covers_refl (fun entry member => (parts entry member).1)
          fun entry member => laws.refl _ (parts entry member).2)
    | object o => exact .identity rfl
    | atom atom => exact .atom atom
  symm := by
    intro x y fits fits' alike
    generalize here : x.shape = shape at alike
    generalize there : y.shape = shape' at alike
    cases alike with
    | items pairs =>
        exact .items (laws.items.symm _ _ (fits.of_items here) (fits'.of_items there) pairs)
    | entries covers =>
        have parts := fits.of_entries here
        have parts' := fits'.of_entries there
        exact .entries (laws.covers_symm (fits.1.of_entries here).1
          (fun entry member => (parts entry member).1)
          (fun entry member => (parts' entry member).1)
          (fun entry member other member' _ same =>
            laws.symm _ _ (parts entry member).2 (parts' other member').2 same) covers)
    | identity same => exact .identity same.symm
    | @attributes a b compares kind covers =>
        obtain ⟨name, form, compares', hashable⟩ := (sameClass_iff a b).1 kind
        have parts := fits.of_object here compares
        have parts' := fits'.of_object there (compares' ▸ compares)
        refine .attributes (compares' ▸ compares)
          ((sameClass_iff b a).2 ⟨name.symm, form.symm, compares'.symm, hashable.symm⟩) ?_
        exact EquivalentOn.eq.covers_symm (fits.1.of_object here).2.1 (fun _ _ => trivial)
          (fun _ _ => trivial) (fun entry member other member' _ same =>
            laws.symm _ _ (parts entry member) (parts' other member') same) covers
    | atom atom => exact .atom atom
  trans := by
    intro x y z fits fits' fits'' alike alike'
    generalize here : x.shape = shape at alike ⊢
    generalize there : y.shape = shape' at alike alike'
    generalize yonder : z.shape = shape'' at alike' ⊢
    cases alike with
    | items pairs =>
        cases alike' with
        | items pairs' =>
            exact .items (laws.items.trans _ _ _ (fits.of_items here) (fits'.of_items there)
              (fits''.of_items yonder) pairs pairs')
    | entries covers =>
        cases alike' with
        | entries covers' =>
            have parts := fits.of_entries here
            have parts' := fits'.of_entries there
            have parts'' := fits''.of_entries yonder
            exact .entries (laws.covers_trans (fun entry member => (parts entry member).1)
              (fun entry member => (parts' entry member).1)
              (fun entry member => (parts'' entry member).1)
              (fun x member y member' z member'' => laws.trans _ _ _ (parts x member).2
                (parts' y member').2 (parts'' z member'').2) covers covers')
    | identity same =>
        -- objects of one identity are one object
        rw [fits.1.eq_of_identity fits'.1 here there same]
        exact alike'
    | @attributes a b compares kind covers =>
        cases alike' with
        | identity same =>
            rw [← fits'.1.eq_of_identity fits''.1 there yonder same]
            exact .attributes compares kind covers
        | @attributes _ c compares' kind' covers' =>
            obtain ⟨name, form, carried, hashable⟩ := (sameClass_iff a b).1 kind
            obtain ⟨name', form', carried', hashable'⟩ := (sameClass_iff b c).1 kind'
            have parts := fits.of_object here compares
            have parts' := fits'.of_object there compares'
            have parts'' := fits''.of_object yonder (carried' ▸ compares')
            refine .attributes compares ((sameClass_iff a c).2 ⟨name.trans name', form.trans form',
              carried.trans carried', hashable.trans hashable'⟩) ?_
            exact EquivalentOn.eq.covers_trans (fun _ _ => trivial) (fun _ _ => trivial)
              (fun _ _ => trivial) (fun x member y member' z member'' =>
                laws.trans _ _ _ (parts x member) (parts' y member') (parts'' z member''))
              covers covers'
    | atom atom => exact alike'

theorem lookup_eq_some {a : List (String × Value)} (names : Apart Eq a) {entry : String × Value}
    (member : entry ∈ a) : a.lookup entry.1 = some entry.2 := by
  induction a with
  | nil => cases member
  | cons first rest ih =>
      obtain ⟨differs, later⟩ := List.pairwise_cons.1 names
      rcases List.mem_cons.1 member with rfl | inside
      · exact List.lookup_cons_self
      · rw [List.lookup_cons, beq_eq_false_iff_ne.2 (Ne.symm (differs entry inside))]
        exact ih later inside

theorem mem_of_lookup {a : List (String × Value)} {name : String} {found : Value}
    (located : a.lookup name = some found) : (name, found) ∈ a := by
  obtain ⟨before, after, rfl, _⟩ := List.lookup_eq_some_iff.1 located
  exact List.mem_append_right _ List.mem_cons_self

/-- Values are equal when they are alike. -/
theorem equals_iff_alike (laws : LawfulBelow heap bound) (fits : Below heap (bound + 1) left)
    (fits' : Below heap (bound + 1) right) :
    left.equals right = true
      ↔ Shape.Alike (fun left right => left.isKey right = true) left.shape right.shape := by
  have proper := fits'.1.not_response
  cases here : left.shape with
  | items isTuple xs =>
      cases isTuple with
      | false =>
          rw [equals_listed (shape_eq_items_iff.1 here)]
          constructor
          · rintro ⟨ys, listed, pairs⟩
            rw [shape_eq_items_iff.2 listed]
            exact .items pairs
          · intro alike
            generalize there : right.shape = shape at alike
            cases alike with
            | items pairs => exact ⟨_, shape_eq_items_iff.1 there, pairs⟩
      | true =>
          rw [shape_eq_tuple_iff.1 here, equals_tuple]
          constructor
          · rintro ⟨ys, rfl, pairs⟩
            exact .items pairs
          · intro alike
            generalize there : right.shape = shape at alike
            cases alike with
            | items pairs => exact ⟨_, shape_eq_tuple_iff.1 there, pairs⟩
  | entries a =>
      rw [shape_eq_entries_iff.1 here, equals_map a proper]
      constructor
      · rintro ⟨b, rfl, size, found⟩
        refine .entries ⟨size, fun entry member => ?_⟩
        obtain ⟨other, located, same⟩ := found entry member
        exact ⟨other, List.mem_of_find?_eq_some located,
          List.find?_some (p := fun other : Value × Value => entry.1.isKey other.1) located, same⟩
      · intro alike
        generalize there : right.shape = shape at alike
        cases alike with
        | @entries _ b covers =>
            refine ⟨b, shape_eq_entries_iff.1 there, covers.1, fun entry member => ?_⟩
            obtain ⟨other, inside, key, same⟩ := covers.2 entry member
            have parts := fits.of_entries here
            have parts' := fits'.of_entries there
            -- a look-up stops at the counterpart: no other key is like the one that is looked for
            exact ⟨other, laws.find?_eq_some (fits'.1.of_entries there).1
              (fun entry member => (parts' entry member).1) (parts entry member).1
              (fun other => entry.1.isKey other) (fun _ _ => id) inside key, same⟩
  | object o =>
      rw [shape_eq_object_iff.1 here, equals_object]
      constructor
      · rintro ⟨other, rfl, same | ⟨compares, kind, size, found⟩⟩
        · exact .identity same
        · refine .attributes compares kind ⟨size, fun entry member => ?_⟩
          obtain ⟨value, located, same⟩ := found entry member
          exact ⟨(entry.1, value), mem_of_lookup located, rfl, same⟩
      · intro alike
        generalize there : right.shape = shape at alike
        cases alike with
        | identity same => exact ⟨_, shape_eq_object_iff.1 there, .inl same⟩
        | @attributes _ b compares kind covers =>
            refine ⟨b, shape_eq_object_iff.1 there, .inr ⟨compares, kind, covers.1, ?_⟩⟩
            intro entry member
            obtain ⟨other, inside, key, same⟩ := covers.2 entry member
            exact ⟨other.2, key ▸ lookup_eq_some (fits'.1.of_object there).2.1 inside, same⟩
  | atom atom =>
      obtain ⟨own, rfl, read⟩ := fits.1.of_atom here
      rw [equals_atom read proper]
      constructor
      · intro same
        rw [shape_eq_atom_iff.2 same.symm]
        exact .atom _
      · intro alike
        generalize there : right.shape = shape at alike
        cases alike with
        | atom => exact (shape_eq_atom_iff.1 there).symm

theorem shape_eq_of_identical (fits : left.Comparable heap) (fits' : right.Comparable heap)
    (same : identical left right = true) : left.shape = right.shape := by
  have proper := fits.not_response
  have proper' := fits'.not_response
  cases fits with
  | list | map => cases same
  | @tuple items each =>
      cases items with
      | cons => cases same
      | nil =>
          cases right with
          | tuple items =>
              cases items with
              | nil => rfl
              | cons => cases same
          | _ => cases same
  | growing now each =>
      cases right with
      | growing handle items =>
          cases fits' with
          | atom read => cases read
          | growing now' each' =>
              rw [identical, decide_eq_true_eq] at same
              rw [shape, shape, now, now', same]
      | _ => cases same
  | object now =>
      cases right with
      | object other =>
          rw [identical, decide_eq_true_eq] at same
          rw [now, (fits'.of_object rfl).1, same]
      | _ => cases same
  | atom read =>
      unfold identical at same
      split at same
      case h_9 | h_10 | h_11 | h_14 => cases read
      case h_13 =>
        rw [decide_eq_true_eq] at same
        simp [shape, atom?, proper _ rfl, proper' _ rfl, same]
      case h_19 => cases same
      all_goals
        simp only [Bool.and_eq_true, decide_eq_true_eq] at same
        simp only [shape, atom?, numeric?, same]

theorem isKey_iff_alike (laws : LawfulBelow heap bound) (fits : Below heap (bound + 1) left)
    (fits' : Below heap (bound + 1) right) :
    left.isKey right = true
      ↔ Shape.Alike (fun left right => left.isKey right = true) left.shape right.shape := by
  rw [isKey, Bool.or_eq_true, equals_iff_alike laws fits fits', or_iff_right_iff_imp]
  intro same
  rw [← shape_eq_of_identical fits.1 fits'.1 same]
  exact (equivalentOn_alike laws).refl left fits

/-- Equality of values of one moment is an equivalence. -/
theorem lawfulBelow (heap : Heap) (bound : Nat) : LawfulBelow heap bound := by
  induction bound with
  | zero =>
      have none (value : Value) (fits : Below heap 0 value) : False := Nat.not_lt_zero _ fits.2
      exact ⟨fun x fits => (none x fits).elim, fun x _ fits => (none x fits).elim,
        fun x _ _ fits => (none x fits).elim⟩
  | succ bound laws =>
      have alike := equivalentOn_alike laws
      refine ⟨fun x fits => ?_, fun x y fits fits' same => ?_,
        fun x y z fits fits' fits'' same same' => ?_⟩
      · exact (isKey_iff_alike laws fits fits).2 (alike.refl x fits)
      · exact (isKey_iff_alike laws fits' fits).2
          (alike.symm x y fits fits' ((isKey_iff_alike laws fits fits').1 same))
      · exact (isKey_iff_alike laws fits fits'').2
          (alike.trans x y z fits fits' fits'' ((isKey_iff_alike laws fits fits').1 same)
            ((isKey_iff_alike laws fits' fits'').1 same'))

theorem Comparable.isKey_iff (fits : left.Comparable heap) (fits' : right.Comparable heap) :
    left.isKey right = true
      ↔ Shape.Alike (fun left right => left.isKey right = true) left.shape right.shape :=
  isKey_iff_alike (lawfulBelow heap (sizeOf left + sizeOf right)) ⟨fits, by omega⟩
    ⟨fits', by omega⟩

theorem equivalentOn_isKey (heap : Heap) :
    EquivalentOn (Comparable heap) fun left right => left.isKey right = true where
  refl x fits := (lawfulBelow heap (sizeOf x + 1)).refl x ⟨fits, Nat.lt_succ_self _⟩
  symm x y fits fits' :=
    (lawfulBelow heap (sizeOf x + sizeOf y + 1)).symm x y ⟨fits, by omega⟩ ⟨fits', by omega⟩
  trans x y z fits fits' fits'' :=
    (lawfulBelow heap (sizeOf x + sizeOf y + sizeOf z + 1)).trans x y z ⟨fits, by omega⟩
      ⟨fits', by omega⟩ ⟨fits'', by omega⟩

end Value

end GraphQL
