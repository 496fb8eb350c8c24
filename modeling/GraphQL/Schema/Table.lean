import GraphQL.Value.Equality

/-!
Tables: what is declared under names, in the order of declaration. A name declared twice keeps its
first place and takes what was declared last, so the names of a table are distinct.
-/

namespace GraphQL

structure Table (α : Type) where
  entries : List (Value × α)
  distinct : entries.Pairwise fun earlier later => earlier.1.isKey later.1 = false

namespace Table

variable {α : Type}

def empty : Table α := ⟨[], .nil⟩

/-- Putting an entry adds no name but its own. -/
theorem mem_putEntry {entries : List (Value × α)} {key : Value} {value : α} {entry : Value × α}
    (mem : entry ∈ Value.putEntry entries key value) :
    (∃ old, (entry.1, old) ∈ entries) ∨ entry = (key, value) := by
  induction entries with
  | nil => exact .inr (by simpa [Value.putEntry] using mem)
  | cons head rest ih =>
    obtain ⟨k, v⟩ := head
    simp only [Value.putEntry] at mem
    split at mem
    · rcases List.mem_cons.1 mem with rfl | later
      · exact .inl ⟨v, by simp⟩
      · exact .inl ⟨entry.2, by simp [later]⟩
    · rcases List.mem_cons.1 mem with rfl | later
      · exact .inl ⟨v, by simp⟩
      · rcases ih later with ⟨old, found⟩ | same
        · exact .inl ⟨old, by simp [found]⟩
        · exact .inr same

theorem distinct_putEntry {entries : List (Value × α)} (key : Value) (value : α)
    (distinct : entries.Pairwise fun earlier later => earlier.1.isKey later.1 = false) :
    (Value.putEntry entries key value).Pairwise fun earlier later =>
      earlier.1.isKey later.1 = false := by
  induction entries with
  | nil => simp [Value.putEntry]
  | cons head rest ih =>
    obtain ⟨k, v⟩ := head
    have apart := List.pairwise_cons.1 distinct
    simp only [Value.putEntry]
    split
    · exact List.pairwise_cons.2 ⟨apart.1, apart.2⟩
    · next differs =>
      refine List.pairwise_cons.2 ⟨fun entry mem => ?_, ih apart.2⟩
      rcases mem_putEntry mem with ⟨old, found⟩ | rfl
      · exact (apart.1 (entry.1, old) found :)
      · simpa using differs

def put (table : Table α) (name : Value) (item : α) : Table α :=
  ⟨Value.putEntry table.entries name item, distinct_putEntry name item table.distinct⟩

def ofList (entries : List (Value × α)) : Table α :=
  entries.foldl (fun table (name, item) => table.put name item) empty

def get? (table : Table α) (name : Value) : Option α := Value.lookup? table.entries name

/-- What is declared under a name that a document gives. -/
def find? (table : Table α) (name : String) : Option α := table.get? (.str name)

def contains (table : Table α) (name : Value) : Bool := (table.get? name).isSome

def names (table : Table α) : List Value := table.entries.map (·.1)

def items (table : Table α) : List α := table.entries.map (·.2)

def isEmpty (table : Table α) : Bool := table.entries.isEmpty

end Table

end GraphQL
