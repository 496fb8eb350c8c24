/-!
Stores keyed by arbitrary values. A strategy says when two keys are one key and sorts keys into
buckets, so that a look-up compares few of them. The store keeps its entries in the order of their
first insertion as well; setting an equal key replaces the entry in both places, key included.
-/

namespace GraphQL

structure KeyStrategy (κ β : Type) where
  bucket : κ → β
  keysEqual : κ → κ → Bool

/-- What is stored under a key. Entries are told apart by their stamps, whatever they hold. -/
structure KeyedEntry (κ ν : Type) where
  stamp : Nat
  key : κ
  value : ν

/-- Every entry stands in a bucket and in the list of all entries. -/
structure KeyedStore (κ β ν : Type) where
  strategy : KeyStrategy κ β
  buckets : List (β × List (KeyedEntry κ ν))
  entries : List (KeyedEntry κ ν)
  /-- The stamp of the entry that is made next. -/
  fresh : Nat

namespace KeyedStore

variable {κ β ν : Type}

def empty (strategy : KeyStrategy κ β) : KeyedStore κ β ν := ⟨strategy, [], [], 0⟩

variable [DecidableEq β]

/-- The entries in a bucket. -/
def held (store : KeyedStore κ β ν) (bucket : β) : List (KeyedEntry κ ν) :=
  (store.buckets.lookup bucket).getD []

/-- The first entry in the bucket of a key whose key equals it. -/
def find? (store : KeyedStore κ β ν) (key : κ) : Option (KeyedEntry κ ν) :=
  (store.held (store.strategy.bucket key)).find? fun entry => store.strategy.keysEqual entry.key key

/-- Whether a look-up meets a key related to the given one before it meets an equal one. -/
def meets (related : κ → κ → Bool) (store : KeyedStore κ β ν) (key : κ) : Bool :=
  ((store.held (store.strategy.bucket key)).takeWhile fun entry =>
    !store.strategy.keysEqual entry.key key).any fun entry => related entry.key key

/-- Puts another item in the place of the first that passes a test. -/
def replaceFirst {α : Type} (test : α → Bool) (other : α) : List α → List α
  | [] => []
  | item :: rest => if test item then other :: rest else item :: replaceFirst test other rest

theorem mem_replaceFirst {α : Type} {test : α → Bool} {other item : α} {items : List α}
    (member : item ∈ replaceFirst test other items) : item ∈ items ∨ item = other := by
  induction items with
  | nil => cases member
  | cons first rest ih =>
    rw [replaceFirst] at member
    split at member
    · rcases List.mem_cons.1 member with same | later
      · exact .inr same
      · exact .inl (List.mem_cons_of_mem _ later)
    · rcases List.mem_cons.1 member with rfl | later
      · exact .inl List.mem_cons_self
      · exact (ih later).imp_left (List.mem_cons_of_mem _)

/-- Changes what a bucket holds; one that is not there yet is added. -/
def changeBucket {α : Type} (bucket : β) (change : List α → List α) :
    List (β × List α) → List (β × List α)
  | [] => [(bucket, change [])]
  | (name, held) :: rest =>
    if name = bucket then (name, change held) :: rest
    else (name, held) :: changeBucket bucket change rest

theorem lookup_changeBucket {α : Type} (bucket other : β) (change : List α → List α)
    (buckets : List (β × List α)) :
    ((changeBucket bucket change buckets).lookup other).getD []
      = if other = bucket then change ((buckets.lookup bucket).getD [])
        else (buckets.lookup other).getD [] := by
  induction buckets with
  | nil =>
    by_cases same : other = bucket
    · simp [changeBucket, same]
    · simp [changeBucket, List.lookup_cons, same, beq_eq_false_iff_ne.2 same]
  | cons first rest ih =>
    obtain ⟨name, held⟩ := first
    rw [changeBucket]
    by_cases here : name = bucket
    · subst here
      rw [if_pos rfl]
      by_cases same : other = name
      · simp [same]
      · simp [List.lookup_cons, same, beq_eq_false_iff_ne.2 same]
    · rw [if_neg here]
      by_cases found : other = name
      · subst found
        simp [here]
      · simp only [List.lookup_cons, beq_eq_false_iff_ne.2 found,
          beq_eq_false_iff_ne.2 (Ne.symm here), ih]

def set (store : KeyedStore κ β ν) (key : κ) (value : ν) : KeyedStore κ β ν :=
  let made : KeyedEntry κ ν := ⟨store.fresh, key, value⟩
  let change (bucket : List (KeyedEntry κ ν) → List (KeyedEntry κ ν))
      (entries : List (KeyedEntry κ ν)) : KeyedStore κ β ν :=
    { store with
      buckets := changeBucket (store.strategy.bucket key) bucket store.buckets
      entries
      fresh := store.fresh + 1 }
  match store.find? key with
  | some found =>
    change (replaceFirst (fun entry => store.strategy.keysEqual entry.key key) made)
      (replaceFirst (fun entry => entry.stamp == found.stamp) made store.entries)
  | none => change (· ++ [made]) (store.entries ++ [made])

/-- A bucket holds nothing but what was set. -/
theorem mem_held_set {store : KeyedStore κ β ν} {key : κ} {value : ν} {bucket : β}
    {entry : KeyedEntry κ ν} (member : entry ∈ (store.set key value).held bucket) :
    entry ∈ store.held bucket ∨ entry.key = key ∧ entry.value = value := by
  unfold set at member
  split at member
  · simp only [held, lookup_changeBucket] at member
    split at member
    · next same =>
      subst same
      rcases mem_replaceFirst member with before | rfl
      · exact .inl before
      · exact .inr ⟨rfl, rfl⟩
    · exact .inl member
  · simp only [held, lookup_changeBucket] at member
    split at member
    · next same =>
      subst same
      rcases List.mem_append.1 member with before | made
      · exact .inl before
      · exact .inr (by simp [List.mem_singleton.1 made])
    · exact .inl member

def get? (store : KeyedStore κ β ν) (key : κ) : Option ν := (store.find? key).map (·.value)

def getD (store : KeyedStore κ β ν) (key : κ) (fallback : ν) : ν :=
  (store.get? key).getD fallback

def contains (store : KeyedStore κ β ν) (key : κ) : Bool := (store.find? key).isSome

def size (store : KeyedStore κ β ν) : Nat := store.entries.length

def keys (store : KeyedStore κ β ν) : List κ := store.entries.map (·.key)

def items (store : KeyedStore κ β ν) : List (κ × ν) :=
  store.entries.map fun entry => (entry.key, entry.value)

def ofList (strategy : KeyStrategy κ β) (entries : List (κ × ν)) : KeyedStore κ β ν :=
  entries.foldl (fun store (key, value) => store.set key value) (empty strategy)

end KeyedStore

end GraphQL
