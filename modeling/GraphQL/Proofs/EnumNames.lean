import GraphQL.Proofs.Associations
import GraphQL.Proofs.Building
import GraphQL.Proofs.Implementing
import GraphQL.Proofs.Names
import GraphQL.Proofs.UntypedReading
import GraphQL.Proofs.Written

/-!
An enum takes every name to an internal value and back. The way back looks the value up in a store,
which is filled with the internal values in the order of their declaration; as long as no two of
them are one key, each has its own place there.
-/

namespace GraphQL

namespace EnumValue

/-- Internal values that can be looked up and are told apart. -/
structure Distinguishable (declared : List EnumValue) : Prop where
  hashable : ∀ own ∈ declared, own.value.hashFault? = none
  self : ∀ own ∈ declared, own.value.keysEqual? own.value = some true
  apart : declared.Pairwise fun earlier later =>
    earlier.value.keysEqual? later.value = some false
      ∧ later.value.keysEqual? earlier.value = some false

theorem Distinguishable.answers {declared : List EnumValue} (distinct : Distinguishable declared)
    {left right : EnumValue} (first : left ∈ declared) (second : right ∈ declared) :
    (left.value.keysEqual? right.value).isSome = true := by
  have onward : declared.Pairwise fun left right =>
      (left.value.keysEqual? right.value).isSome = true :=
    distinct.apart.imp fun both => by rw [both.1]; rfl
  have back : declared.Pairwise (flip fun left right =>
      (left.value.keysEqual? right.value).isSome = true) :=
    distinct.apart.imp fun both => by rw [flip, both.2]; rfl
  refine onward.forall_of_forall_of_flip (fun own member => ?_) back first second
  rw [distinct.self own member]
  rfl

/-- A store whose entries stand under what they stand for. -/
structure Store.Keyed (made : Store) : Prop where
  strategy : made.strategy = defaultKeys
  keys : ∀ bucket, ∀ entry ∈ made.held bucket, entry.key = entry.value.value

/-- A store that has just these enum values, each bucket in the order in which they came. -/
structure Store.Holds (made : Store) (stored : List EnumValue) : Prop extends made.Keyed where
  values : ∀ bucket, (made.held bucket).map (·.value)
    = stored.filter fun own => decide (Bucket.ofValue own.value = bucket)

namespace Store

variable {made : Store} {stored : List EnumValue}

theorem Keyed.set (keyed : made.Keyed) (own : EnumValue) : Keyed (made.set own.value own) where
  strategy := (KeyedStore.strategy_set ..).trans keyed.strategy
  keys := by
    intro bucket entry member
    rcases KeyedStore.mem_held_set member with before | ⟨key, value⟩
    · exact keyed.keys bucket entry before
    · rw [key, value]

/-- What a look-up finds stands for the key. -/
theorem Keyed.keysEqual_of_find? (keyed : made.Keyed) {key : Value}
    {entry : KeyedEntry Value EnumValue} (found : made.find? key = some entry) :
    entry.value.value.keysEqual key = true := by
  have equality : made.strategy.keysEqual = Value.keysEqual := by rw [keyed.strategy]; rfl
  rw [KeyedStore.find?, equality] at found
  rw [← keyed.keys _ entry (List.mem_of_find?_eq_some found)]
  exact List.find?_some
    (p := fun entry : KeyedEntry Value EnumValue => entry.key.keysEqual key) found

theorem Holds.mem (holds : made.Holds stored) {bucket : Bucket}
    {entry : KeyedEntry Value EnumValue} (member : entry ∈ made.held bucket) :
    entry.value ∈ stored := by
  have listed := List.mem_map_of_mem (f := (·.value)) member
  rw [holds.values] at listed
  exact (List.mem_filter.1 listed).1

theorem Holds.set (holds : made.Holds stored) {own : EnumValue}
    (fresh : ∀ earlier ∈ stored, earlier.value.keysEqual own.value = false) :
    Holds (made.set own.value own) (stored ++ [own]) := by
  refine { holds.toKeyed.set own with values := fun bucket => ?_ }
  have missing : made.find? own.value = none := by
    cases found : made.find? own.value with
    | none => rfl
    | some entry =>
        have same := holds.keysEqual_of_find? found
        rw [fresh _ (holds.mem (List.mem_of_find?_eq_some found))] at same
        cases same
  have place : made.strategy.bucket own.value = Bucket.ofValue own.value := by
    rw [holds.strategy]
    rfl
  rw [(KeyedStore.set_of_none own missing).2, List.map_append, holds.values, List.filter_append,
    place]
  congr 1
  by_cases here : bucket = Bucket.ofValue own.value
  · simp [here, KeyedStore.made]
  · simp [here, Ne.symm here]

end Store

variable {stored : List EnumValue}

end EnumValue

end GraphQL
