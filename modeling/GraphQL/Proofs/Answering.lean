import GraphQL.Proofs.Likeness
import GraphQL.Value.Key

/-!
Comparing values of one moment is never refused: only a decimal that signals refuses it.
-/

namespace GraphQL

namespace Value

variable {heap : Heap} {left right : Value}

theorem Comparable.not_signaling (fits : left.Comparable heap) {number : Numeric}
    (read : left.numeric? = some number) : number.isSignaling = false := by
  rw [Bool.eq_false_iff]
  intro signals
  cases fits with
  | atom own =>
      rw [atom?_of_numeric read, Numeric.amount?_of_isSignaling signals] at own
      cases own
  | list | growing | tuple | map | object => cases read

theorem atomsEqual_isSome (fits : left.Comparable heap) (fits' : right.Comparable heap) :
    (atomsEqual left right).isSome = true := by
  cases read : left.numeric? with
  | none => simp [atomsEqual, read]
  | some number =>
      cases read' : right.numeric? with
      | none => simp [atomsEqual, read, read']
      | some number' =>
          simp [atomsEqual, read, read', fits.not_signaling read, fits'.not_signaling read']

theorem asked_isSome (given : (left.equals? right).isSome = true) :
    (if identical left right = true then some true else left.equals? right).isSome = true := by
  split
  · rfl
  · exact given

theorem equalItems?_isSome (xs ys : List Value)
    (each : ∀ x ∈ xs, ∀ y ∈ ys, (x.equals? y).isSome = true) :
    (equalItems? xs ys).isSome = true := by
  induction xs generalizing ys with
  | nil => cases ys <;> simp [equalItems?]
  | cons x xs ih =>
      cases ys with
      | nil => simp [equalItems?]
      | cons y ys =>
          have rest := ih ys fun x inside y inside' =>
            each x (List.mem_cons_of_mem _ inside) y (List.mem_cons_of_mem _ inside')
          obtain ⟨answer, given⟩ := Option.isSome_iff_exists.1
            (asked_isSome (each x List.mem_cons_self y List.mem_cons_self))
          rw [equalItems?, given]
          cases answer <;> simp [rest]

theorem entriesFound?_isSome {a b : List (Value × Value)}
    (each : ∀ x ∈ a, ∀ y ∈ b, (x.2.equals? y.2).isSome = true) :
    (entriesFound? a b).isSome = true := by
  induction a with
  | nil => simp [entriesFound?]
  | cons first more ih =>
      have rest := ih fun x inside => each x (List.mem_cons_of_mem _ inside)
      obtain ⟨key, value⟩ := first
      rw [entriesFound?]
      split
      · rfl
      · rename_i found located
        obtain ⟨answer, given⟩ := Option.isSome_iff_exists.1
          (asked_isSome (each _ List.mem_cons_self _ (List.mem_of_find?_eq_some located)))
        simp only at given
        rw [given]
        cases answer <;> simp [rest]

theorem attributesFound?_isSome {a b : List (String × Value)}
    (each : ∀ x ∈ a, ∀ y ∈ b, (x.2.equals? y.2).isSome = true) :
    (attributesFound? a b).isSome = true := by
  induction a with
  | nil => simp [attributesFound?]
  | cons first more ih =>
      have rest := ih fun x inside => each x (List.mem_cons_of_mem _ inside)
      obtain ⟨name, value⟩ := first
      rw [attributesFound?]
      split
      · rfl
      · rename_i found located
        obtain ⟨answer, given⟩ := Option.isSome_iff_exists.1
          (asked_isSome (each _ List.mem_cons_self _ (mem_of_lookup located)))
        simp only at given
        rw [given]
        cases answer <;> simp [rest]

theorem equals?_isSome (fits : left.Comparable heap) :
    ∀ right : Value, right.Comparable heap → (left.equals? right).isSome = true := by
  have items {xs : List Value} {right : Value} (fits : right.Comparable heap) {isTuple : Bool}
      {ys : List Value} (there : right.shape = .items isTuple ys)
      (ih : ∀ x ∈ xs, ∀ y : Value, y.Comparable heap → (x.equals? y).isSome = true) :
      (equalItems? xs ys).isSome = true :=
    equalItems?_isSome _ _ fun x inside y inside' => ih x inside y (fits.of_items there y inside').1
  -- By induction on the left value, which equality goes down: the right one is any of the same moment.
  induction fits with
  | atom read thrown =>
      intro right fits'
      rw [equals?_atom read]
      exact atomsEqual_isSome (.atom read thrown) fits'
  | list each ih | growing now each ih =>
      intro right fits'
      rw [equals?]
      split
      · rename_i ys listed
        split
        · rfl
        · exact items fits' (shape_eq_items_iff.2 listed) ih
      · rfl
  | tuple each ih =>
      intro right fits'
      cases right with
      | tuple ys =>
          rw [equals?]
          exact items fits' rfl ih
      | _ => simp [equals?]
  | map keys values apart _ ih =>
      intro right fits'
      cases right with
      | map b =>
          rw [equals?]
          split
          · rfl
          · exact entriesFound?_isSome fun x inside y inside' =>
              ih x inside y.2 ((fits'.of_entries rfl).2 y inside').2.1
      | error thrown =>
          obtain ⟨kind, message, extensions, path, identity⟩ := thrown
          have proper := fits'.not_response _ rfl
          cases kind <;> simp [equals?] at proper ⊢
      | _ => simp [equals?]
  | @object o now each names ih =>
      intro right fits'
      obtain ⟨className, attributes, stringForm, comparesAttributes, hashable, identity⟩ := o
      cases right with
      | object other =>
          rw [equals?]
          split
          · rfl
          · split
            · rfl
            · rename_i differs
              simp only [Bool.or_eq_true, not_or, Bool.not_eq_true, Bool.not_eq_false'] at differs
              obtain ⟨⟨compares, kind⟩, _⟩ := differs
              have compares' := ((sameClass_iff _ _).1 kind).2.2.1.symm
              exact attributesFound?_isSome fun x inside y inside' =>
                ih compares x inside y.2 ((fits'.of_object rfl).2.2 compares' y inside').1
      | _ => simp [equals?]

theorem keyItemsEqual?_isSome (xs ys : List Value)
    (each : ∀ x ∈ xs, ∀ y ∈ ys, (x.keysEqual? y).isSome = true) :
    (keyItemsEqual? xs ys).isSome = true := by
  induction xs generalizing ys with
  | nil => cases ys <;> simp [keyItemsEqual?]
  | cons x xs ih =>
      cases ys with
      | nil => simp [keyItemsEqual?]
      | cons y ys =>
          have rest := ih ys fun x inside y inside' =>
            each x (List.mem_cons_of_mem _ inside) y (List.mem_cons_of_mem _ inside')
          obtain ⟨answer, given⟩ := Option.isSome_iff_exists.1
            (each x List.mem_cons_self y List.mem_cons_self)
          rw [keyItemsEqual?, given]
          cases answer <;> simp [rest]

theorem keyEntriesEqual?_isSome {a b : List (Value × Value)}
    (each : ∀ x ∈ a, ∀ y ∈ b, (x.2.keysEqual? y.2).isSome = true) :
    (keyEntriesEqual? a b).isSome = true := by
  induction a with
  | nil => simp [keyEntriesEqual?]
  | cons first more ih =>
      have rest := ih fun x inside => each x (List.mem_cons_of_mem _ inside)
      obtain ⟨key, value⟩ := first
      rw [keyEntriesEqual?]
      split
      · rfl
      · rename_i found located
        obtain ⟨other, there, rfl⟩ := Option.map_eq_some_iff.1 located
        obtain ⟨answer, given⟩ := Option.isSome_iff_exists.1
          (each _ List.mem_cons_self other (List.mem_of_find?_eq_some there))
        simp only at given
        rw [given]
        cases answer <;> simp [rest]

theorem leavesEqual?_isSome (fits : left.Comparable heap) (fits' : right.Comparable heap) :
    (leavesEqual? left right).isSome = true := by
  have given := equals?_isSome fits right fits'
  rw [leavesEqual?.eq_def]
  split
  all_goals try rfl
  split
  · rfl
  · split
    · exact given
    · rfl

theorem keysEqual?_atom {atom : Atom} (here : left.atom? = some atom) (right : Value) :
    left.keysEqual? right = leavesEqual? left right := by
  cases left with
  | list | growing | tuple | map => cases here
  | _ =>
      rw [keysEqual?]
      all_goals simp

/-- Whether two values of one moment are one key is always answered. -/
theorem keysEqual?_isSome (fits : left.Comparable heap) :
    ∀ right : Value, right.Comparable heap → (left.keysEqual? right).isSome = true := by
  have items {xs : List Value} {right : Value} (fits : right.Comparable heap) {isTuple : Bool}
      {ys : List Value} (there : right.shape = .items isTuple ys)
      (ih : ∀ x ∈ xs, ∀ y : Value, y.Comparable heap → (x.keysEqual? y).isSome = true) :
      (if xs.length != ys.length then some false else keyItemsEqual? xs ys).isSome = true := by
    split
    · rfl
    · exact keyItemsEqual?_isSome _ _ fun x inside y inside' =>
        ih x inside y (fits.of_items there y inside').1
  induction fits with
  | atom read thrown =>
      intro right fits'
      rw [keysEqual?_atom read]
      exact leavesEqual?_isSome (.atom read thrown) fits'
  | list each ih | growing now each ih =>
      intro right fits'
      rw [keysEqual?]
      split
      · rename_i ys listed
        exact items fits' (shape_eq_items_iff.2 listed) ih
      · rfl
  | tuple each ih =>
      intro right fits'
      cases right with
      | tuple ys =>
          rw [keysEqual?]
          exact items fits' rfl ih
      | _ => simp [keysEqual?]
  | map keys values apart _ ih =>
      intro right fits'
      cases right with
      | map b =>
          rw [keysEqual?]
          split
          · exact keyEntriesEqual?_isSome fun x inside y inside' =>
              ih x inside y.2 ((fits'.of_entries rfl).2 y inside').2.1
          · rfl
      | _ => simp [keysEqual?]
  | @object o now each names ih =>
      intro right fits'
      rw [keysEqual?]
      · exact leavesEqual?_isSome (.object now each names) fits'
      all_goals simp

end Value

end GraphQL
