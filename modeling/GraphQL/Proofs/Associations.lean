import GraphQL.KeyedStore
import Mathlib.Data.List.Induction
import Mathlib.Data.List.Nodup
import Mathlib.Data.List.Pairwise

/-!
A store keyed by values is a list of associations. Under a strategy whose equality is an equivalence
that respects its buckets, a store answers with what was set last under an equal key, and lists one
entry for each key in the order in which the keys came. Its buckets and its list of entries hold the
same entries at all times, though each is kept on its own.
-/

namespace GraphQL

variable {κ β ν : Type}

namespace KeyStrategy

/-- Keys are equal as an equivalence says, and equal keys are in one bucket. -/
structure Lawful (strategy : KeyStrategy κ β) : Prop where
  equivalence : Equivalence fun left right => strategy.keysEqual left right = true
  bucket : ∀ left right, strategy.keysEqual left right = true →
    strategy.bucket left = strategy.bucket right

/-- What was set last under a key that equals the given one. -/
def latest? (strategy : KeyStrategy κ β) (sets : List (κ × ν)) (key : κ) : Option (κ × ν) :=
  sets.reverse.find? fun entry => strategy.keysEqual entry.1 key

/-- The keys without those that equal an earlier one. -/
def distinct (strategy : KeyStrategy κ β) : List κ → List κ
  | [] => []
  | key :: rest => key :: (strategy.distinct rest).filter fun other => !strategy.keysEqual key other

variable {strategy : KeyStrategy κ β}

theorem Lawful.refl (lawful : strategy.Lawful) (key : κ) : strategy.keysEqual key key = true :=
  lawful.equivalence.refl key

theorem Lawful.symm (lawful : strategy.Lawful) {left right : κ}
    (same : strategy.keysEqual left right = true) : strategy.keysEqual right left = true :=
  lawful.equivalence.symm same

theorem Lawful.trans (lawful : strategy.Lawful) {left middle right : κ}
    (first : strategy.keysEqual left middle = true)
    (second : strategy.keysEqual middle right = true) : strategy.keysEqual left right = true :=
  lawful.equivalence.trans first second

theorem Lawful.comm (lawful : strategy.Lawful) (left right : κ) :
    strategy.keysEqual left right = strategy.keysEqual right left :=
  Bool.eq_iff_iff.2 ⟨lawful.symm, lawful.symm⟩

theorem Lawful.congr (lawful : strategy.Lawful) {left right : κ}
    (same : strategy.keysEqual left right = true) (key : κ) :
    strategy.keysEqual left key = strategy.keysEqual right key := by
  rw [Bool.eq_iff_iff]
  exact ⟨lawful.trans (lawful.symm same), lawful.trans same⟩

theorem latest?_append (sets : List (κ × ν)) (key other : κ) (value : ν) :
    strategy.latest? (sets ++ [(key, value)]) other
      = if strategy.keysEqual key other then some (key, value)
        else strategy.latest? sets other := by
  simp only [latest?, List.reverse_append, List.reverse_cons, List.reverse_nil, List.nil_append,
    List.singleton_append, List.find?_cons]
  cases strategy.keysEqual key other <;> rfl

theorem isSome_latest? (sets : List (κ × ν)) (key : κ) :
    (strategy.latest? sets key).isSome
      = (sets.map (·.1)).any fun other => strategy.keysEqual other key := by
  rw [latest?, Bool.eq_iff_iff, List.find?_isSome, List.any_eq_true]
  simp

theorem keysEqual_of_latest? {sets : List (κ × ν)} {key : κ} {entry : κ × ν}
    (found : strategy.latest? sets key = some entry) :
    strategy.keysEqual entry.1 key = true :=
  (List.find?_eq_some_iff_append.1 found).1

theorem Lawful.exists_latest (lawful : strategy.Lawful) {sets : List (κ × ν)} {key : κ}
    (member : key ∈ sets.map (·.1)) :
    ∃ entry, strategy.latest? sets key = some entry
      ∧ strategy.keysEqual entry.1 key = true := by
  have some_ : (strategy.latest? sets key).isSome = true := by
    rw [isSome_latest?, List.any_eq_true]
    exact ⟨key, member, lawful.refl key⟩
  obtain ⟨entry, found⟩ := Option.isSome_iff_exists.1 some_
  exact ⟨entry, found, keysEqual_of_latest? found⟩

theorem distinct_append (keys : List κ) (key : κ) :
    strategy.distinct (keys ++ [key])
      = if keys.any fun other => strategy.keysEqual other key then strategy.distinct keys
        else strategy.distinct keys ++ [key] := by
  induction keys with
  | nil => rfl
  | cons first rest ih =>
      rw [List.cons_append, distinct, ih, List.any_cons, distinct]
      cases rest.any fun other => strategy.keysEqual other key with
      | true => simp
      | false => cases here : strategy.keysEqual first key <;> simp [here]

theorem mem_of_mem_distinct {keys : List κ} {key : κ} (member : key ∈ strategy.distinct keys) :
    key ∈ keys := by
  induction keys with
  | nil => cases member
  | cons first rest ih =>
      rcases List.mem_cons.1 member with rfl | later
      · exact List.mem_cons_self
      · exact List.mem_cons_of_mem _ (ih (List.mem_filter.1 later).1)

end KeyStrategy

namespace KeyedStore

theorem replaceFirst_eq_map {α : Type} {test : α → Bool} (other : α) {items : List α}
    (once : items.Pairwise fun earlier later => test earlier = true → test later = false) :
    replaceFirst test other items = items.map fun item => if test item then other else item := by
  induction items with
  | nil => rfl
  | cons item rest ih =>
      obtain ⟨head, tail⟩ := List.pairwise_cons.1 once
      rw [replaceFirst, List.map_cons]
      cases here : test item with
      | false => rw [if_neg Bool.false_ne_true, if_neg Bool.false_ne_true, ih tail]
      | true =>
          have untouched : (rest.map fun item => if test item then other else item) = rest.map id :=
            List.map_congr_left fun later inside => by rw [head later inside here]; rfl
          rw [if_pos rfl, if_pos rfl, untouched, List.map_id]

section

variable [DecidableEq β] {store : KeyedStore κ β ν}

/-- The buckets and the list of entries hold the same entries, each in the bucket of its key. No two
keys are equal, and no two entries have one stamp. -/
structure Coherent (store : KeyedStore κ β ν) : Prop where
  names : (store.buckets.map (·.1)).Nodup
  buckets : ∀ bucket, store.held bucket
    = store.entries.filter fun entry => store.strategy.bucket entry.key = bucket
  apart : store.entries.Pairwise fun earlier later =>
    store.strategy.keysEqual earlier.key later.key = false
  stamps : store.entries.Pairwise fun earlier later => earlier.stamp ≠ later.stamp
  older : ∀ entry ∈ store.entries, entry.stamp < store.fresh

theorem coherent_empty (strategy : KeyStrategy κ β) :
    (empty strategy : KeyedStore κ β ν).Coherent :=
  ⟨.nil, fun _ => rfl, .nil, .nil, fun _ inside => nomatch inside⟩

/-- The entry that `set` makes. -/
def made (store : KeyedStore κ β ν) (key : κ) (value : ν) : KeyedEntry κ ν :=
  ⟨store.fresh, key, value⟩

/-- What becomes of an entry when its key is set again. -/
def renewed (store : KeyedStore κ β ν) (key : κ) (value : ν) (entry : KeyedEntry κ ν) :
    KeyedEntry κ ν :=
  if store.strategy.keysEqual entry.key key then store.made key value else entry

theorem strategy_set (store : KeyedStore κ β ν) (key : κ) (value : ν) :
    (store.set key value).strategy = store.strategy := by
  unfold set
  split <;> rfl

theorem fresh_set (store : KeyedStore κ β ν) (key : κ) (value : ν) :
    (store.set key value).fresh = store.fresh + 1 := by
  unfold set
  split <;> rfl

theorem names_changeBucket {α : Type} (bucket : β) (change : List α → List α)
    {buckets : List (β × List α)} (names : (buckets.map (·.1)).Nodup) :
    ((changeBucket bucket change buckets).map (·.1)).Nodup
      ∧ ∀ name ∈ (changeBucket bucket change buckets).map (·.1),
        name ∈ buckets.map (·.1) ∨ name = bucket := by
  induction buckets with
  | nil => exact ⟨List.nodup_singleton _, fun name inside => .inr (List.mem_singleton.1 inside)⟩
  | cons first rest ih =>
      obtain ⟨other, held⟩ := first
      obtain ⟨new, later⟩ := List.nodup_cons.1 names
      rw [changeBucket]
      split
      · exact ⟨names, fun name => .inl⟩
      · next differs =>
          obtain ⟨distinct, each⟩ := ih later
          refine ⟨List.nodup_cons.2 ⟨fun inside => ?_, distinct⟩, fun name inside => ?_⟩
          · exact (each other inside).elim new differs
          · rcases List.mem_cons.1 inside with rfl | inside
            · exact .inl List.mem_cons_self
            · exact (each name inside).imp_left (List.mem_cons_of_mem _)

theorem names_set (key : κ) (value : ν) (names : (store.buckets.map (·.1)).Nodup) :
    ((store.set key value).buckets.map (·.1)).Nodup := by
  unfold set
  split <;> exact (names_changeBucket _ _ names).1

section

variable (lawful : store.strategy.Lawful) (coherent : store.Coherent)
include lawful coherent

theorem Coherent.find?_eq (key : κ) :
    store.find? key
      = store.entries.find? fun entry => store.strategy.keysEqual entry.key key := by
  rw [find?, coherent.buckets, List.find?_filter]
  congr 1
  funext entry
  cases same : store.strategy.keysEqual entry.key key with
  | false => simp
  | true => simp [lawful.bucket _ _ same]

theorem Coherent.once (key : κ) :
    store.entries.Pairwise fun earlier later =>
      store.strategy.keysEqual earlier.key key = true →
        store.strategy.keysEqual later.key key = false := by
  refine coherent.apart.imp fun {earlier later} apart same => ?_
  rw [lawful.comm, ← lawful.congr same, apart]

variable {key : κ} {found : KeyedEntry κ ν}

/-- The entry that is found under a key is the only one with its stamp, as it is under the key. -/
theorem Coherent.stamp_eq (located : store.find? key = some found) {entry : KeyedEntry κ ν}
    (inside : entry ∈ store.entries) :
    (entry.stamp == found.stamp) = store.strategy.keysEqual entry.key key := by
  rw [coherent.find?_eq lawful] at located
  have member := List.mem_of_find?_eq_some located
  have equal := (List.find?_eq_some_iff_append.1 located).1
  by_cases same : entry = found
  · rw [same, equal, beq_self_eq_true]
  · have : Std.Symm fun left right : KeyedEntry κ ν => left.stamp ≠ right.stamp :=
      ⟨fun _ _ => Ne.symm⟩
    have : Std.Symm fun left right : KeyedEntry κ ν =>
        store.strategy.keysEqual left.key right.key = false :=
      ⟨fun left right apart => (lawful.comm right.key left.key).trans apart⟩
    have stamps := coherent.stamps.forall inside member same
    have apart := coherent.apart.forall inside member same
    rw [lawful.comm, ← lawful.congr equal, lawful.comm, apart]
    exact beq_eq_false_iff_ne.2 stamps

theorem Coherent.entries_set_of_some (value : ν) (located : store.find? key = some found) :
    (store.set key value).entries = store.entries.map (store.renewed key value) := by
  have stamped : store.entries.Pairwise fun earlier later =>
      (earlier.stamp == found.stamp) = true → (later.stamp == found.stamp) = false := by
    refine (coherent.once lawful key).imp_of_mem fun {earlier later} first second once => ?_
    rw [coherent.stamp_eq lawful located first, coherent.stamp_eq lawful located second]
    exact once
  unfold set
  rw [located]
  simp only
  rw [replaceFirst_eq_map _ stamped]
  refine List.map_congr_left fun entry inside => ?_
  rw [coherent.stamp_eq lawful located inside]
  rfl

theorem Coherent.held_set_of_some (value : ν) (located : store.find? key = some found)
    (bucket : β) :
    (store.set key value).held bucket = (store.held bucket).map (store.renewed key value) := by
  have replaced : ∀ {name}, (store.set key value).held name
      = if name = store.strategy.bucket key then
          replaceFirst (fun entry => store.strategy.keysEqual entry.key key)
            (store.made key value) (store.held name)
        else store.held name := by
    intro name
    unfold set
    rw [located]
    simp only [held, lookup_changeBucket]
    split
    · next same => rw [same]; rfl
    · rfl
  rw [replaced]
  split
  · rw [coherent.buckets]
    exact replaceFirst_eq_map _ ((coherent.once lawful key).filter _)
  · next other =>
      -- what is held elsewhere is under other keys
      have untouched : (store.held bucket).map (store.renewed key value)
          = (store.held bucket).map id := by
        refine List.map_congr_left fun entry inside => ?_
        rw [coherent.buckets, List.mem_filter, decide_eq_true_eq] at inside
        rw [renewed, if_neg fun same => other (inside.2.symm.trans (lawful.bucket _ _ same)), id]
      rw [untouched, List.map_id]

end

theorem set_of_none (value : ν) (missing : store.find? key = none) :
    (store.set key value).entries = store.entries ++ [store.made key value]
      ∧ ∀ bucket, (store.set key value).held bucket
        = store.held bucket ++ if bucket = store.strategy.bucket key then [store.made key value]
          else [] := by
  unfold set
  rw [missing]
  refine ⟨rfl, fun bucket => ?_⟩
  simp only [held, lookup_changeBucket]
  split
  · next same => rw [same]; rfl
  · rw [List.append_nil]

variable {key : κ} {value : ν}

omit [DecidableEq β] in
theorem renewed_key (lawful : store.strategy.Lawful) (entry : KeyedEntry κ ν) :
    store.strategy.keysEqual (store.renewed key value entry).key entry.key = true := by
  rw [renewed]
  split
  · next same => exact lawful.symm same
  · exact lawful.refl entry.key

/-- Setting a key again leaves two keys as different as they were, and two stamps. -/
theorem Coherent.set_of_some (lawful : store.strategy.Lawful) (coherent : store.Coherent)
    {found : KeyedEntry κ ν} (located : store.find? key = some found) :
    (store.set key value).Coherent := by
  have entries := coherent.entries_set_of_some lawful value located
  have held := coherent.held_set_of_some lawful value located
  have bucket (entry : KeyedEntry κ ν) :
      store.strategy.bucket (store.renewed key value entry).key = store.strategy.bucket entry.key :=
    lawful.bucket _ _ (renewed_key lawful entry)
  refine ⟨names_set key value coherent.names, fun name => ?_, ?_, ?_, fun entry inside => ?_⟩
  · rw [held, entries, strategy_set, coherent.buckets, List.filter_map]
    congr 2
    funext entry
    simp only [Function.comp, bucket]
  · rw [entries, strategy_set, List.pairwise_map]
    refine coherent.apart.imp fun {earlier later} apart => ?_
    rw [lawful.congr (renewed_key lawful earlier), lawful.comm,
      lawful.congr (renewed_key lawful later), lawful.comm, apart]
  · rw [entries, List.pairwise_map]
    refine (coherent.stamps.and (coherent.once lawful key)).imp_of_mem ?_
    rintro earlier later first second ⟨stamps, once⟩
    have old := coherent.older earlier first
    have old' := coherent.older later second
    simp only [renewed]
    split
    · next same =>
        rw [once same, if_neg Bool.false_ne_true]
        exact (Nat.ne_of_lt old').symm
    · split
      · exact Nat.ne_of_lt old
      · exact stamps
  · rw [entries] at inside
    obtain ⟨before, member, rfl⟩ := List.mem_map.1 inside
    rw [fresh_set, renewed]
    split
    · exact Nat.lt_succ_self _
    · exact Nat.lt_succ_of_lt (coherent.older before member)

theorem Coherent.unequal_of_none (lawful : store.strategy.Lawful) (coherent : store.Coherent)
    (missing : store.find? key = none) (entry : KeyedEntry κ ν) (inside : entry ∈ store.entries) :
    store.strategy.keysEqual entry.key key = false := by
  rw [coherent.find?_eq lawful, List.find?_eq_none] at missing
  simpa using missing entry inside

theorem Coherent.set_of_none (lawful : store.strategy.Lawful) (coherent : store.Coherent)
    (missing : store.find? key = none) : (store.set key value).Coherent := by
  obtain ⟨entries, held⟩ := store.set_of_none value missing
  refine ⟨names_set key value coherent.names, fun name => ?_, ?_, ?_, fun entry inside => ?_⟩
  · rw [held, entries, strategy_set, coherent.buckets, List.filter_append]
    congr 1
    by_cases same : name = store.strategy.bucket key
    · simp [made, same]
    · simp [made, same, Ne.symm same]
  · rw [entries, strategy_set, List.pairwise_append]
    refine ⟨coherent.apart, List.pairwise_singleton _ _, fun entry inside other last => ?_⟩
    rw [List.mem_singleton.1 last]
    exact coherent.unequal_of_none lawful missing entry inside
  · rw [entries, List.pairwise_append]
    refine ⟨coherent.stamps, List.pairwise_singleton _ _, fun entry inside other last => ?_⟩
    rw [List.mem_singleton.1 last]
    exact Nat.ne_of_lt (coherent.older entry inside)
  · rw [entries] at inside
    rw [fresh_set]
    rcases List.mem_append.1 inside with before | last
    · exact Nat.lt_succ_of_lt (coherent.older entry before)
    · rw [List.mem_singleton.1 last]
      exact Nat.lt_succ_self _

/-- Setting a key keeps the two structures of a store in step. -/
theorem Coherent.set (lawful : store.strategy.Lawful) (coherent : store.Coherent) (key : κ)
    (value : ν) : (store.set key value).Coherent := by
  cases located : store.find? key with
  | some found => exact coherent.set_of_some lawful located
  | none => exact coherent.set_of_none lawful located

theorem Coherent.find?_set (lawful : store.strategy.Lawful) (coherent : store.Coherent) (key : κ)
    (value : ν) (other : κ) :
    (store.set key value).find? other
      = if store.strategy.keysEqual key other then some (store.made key value)
        else store.find? other := by
  have lawful' : (store.set key value).strategy.Lawful := by rwa [strategy_set]
  rw [(coherent.set lawful key value).find?_eq lawful', coherent.find?_eq lawful, strategy_set]
  cases located : store.find? key with
  | some found =>
      rw [coherent.entries_set_of_some lawful value located, List.find?_map]
      have tests : (fun entry : KeyedEntry κ ν => store.strategy.keysEqual entry.key other)
          ∘ store.renewed key value = fun entry => store.strategy.keysEqual entry.key other :=
        funext fun entry => lawful.congr (renewed_key lawful entry) other
      rw [tests]
      rw [coherent.find?_eq lawful] at located
      cases same : store.strategy.keysEqual key other with
      | true =>
          have alike : (fun entry : KeyedEntry κ ν => store.strategy.keysEqual entry.key other)
              = fun entry => store.strategy.keysEqual entry.key key := by
            funext entry
            rw [lawful.comm, ← lawful.congr same, lawful.comm]
          rw [alike, located, if_pos rfl, Option.map_some, renewed,
            if_pos (List.find?_eq_some_iff_append.1 located).1]
      | false =>
          rw [if_neg Bool.false_ne_true]
          cases here : store.entries.find?
              fun entry => store.strategy.keysEqual entry.key other with
          | none => rfl
          | some entry =>
              have equal := (List.find?_eq_some_iff_append.1 here).1
              rw [Option.map_some, renewed, lawful.congr equal, lawful.comm, same,
                if_neg Bool.false_ne_true]
  | none =>
      rw [(store.set_of_none value located).1, List.find?_append, List.find?_singleton]
      cases same : store.strategy.keysEqual key other with
      | true =>
          have missing : (store.entries.find?
              fun entry => store.strategy.keysEqual entry.key other) = none := by
            rw [List.find?_eq_none]
            intro entry inside equal
            have unequal := coherent.unequal_of_none lawful located entry inside
            rw [lawful.trans equal (lawful.symm same)] at unequal
            cases unequal
          rw [missing]
          simp [made, same]
      | false => simp [made, same]

theorem Coherent.items_set (lawful : store.strategy.Lawful) (coherent : store.Coherent) (key : κ)
    (value : ν) :
    (store.set key value).items
      = if (store.find? key).isSome then
          store.items.map fun item =>
            if store.strategy.keysEqual item.1 key then (key, value) else item
        else store.items ++ [(key, value)] := by
  cases located : store.find? key with
  | some found =>
      rw [items, coherent.entries_set_of_some lawful value located, items, List.map_map,
        List.map_map]
      refine List.map_congr_left fun entry _ => ?_
      simp only [Function.comp, renewed]
      split <;> rfl
  | none =>
      rw [items, (store.set_of_none value located).1, List.map_append]
      rfl

end

variable [DecidableEq β] {strategy : KeyStrategy κ β}

theorem ofList_append (strategy : KeyStrategy κ β) (sets : List (κ × ν)) (key : κ) (value : ν) :
    ofList strategy (sets ++ [(key, value)]) = (ofList strategy sets).set key value := by
  rw [ofList, List.foldl_append]
  rfl

theorem strategy_ofList (strategy : KeyStrategy κ β) (sets : List (κ × ν)) :
    (ofList strategy sets).strategy = strategy := by
  induction sets using List.reverseRecOn with
  | nil => rfl
  | append_singleton sets entry ih => rw [ofList_append, strategy_set, ih]

theorem coherent_ofList (lawful : strategy.Lawful) (sets : List (κ × ν)) :
    (ofList strategy sets).Coherent := by
  induction sets using List.reverseRecOn with
  | nil => exact coherent_empty strategy
  | append_singleton sets entry ih =>
      rw [ofList_append]
      exact ih.set (by rwa [strategy_ofList]) entry.1 entry.2

/-- A look-up finds what was set last under an equal key. -/
theorem find?_ofList (lawful : strategy.Lawful) (sets : List (κ × ν)) (key : κ) :
    ((ofList strategy sets).find? key).map (fun entry => (entry.key, entry.value))
      = strategy.latest? sets key := by
  induction sets using List.reverseRecOn with
  | nil => rfl
  | append_singleton sets entry ih =>
      obtain ⟨set, value⟩ := entry
      rw [ofList_append, (coherent_ofList lawful sets).find?_set (by rwa [strategy_ofList]),
        KeyStrategy.latest?_append, ← ih, strategy_ofList]
      split <;> rfl

/-- The items are what was set last under each key, in the order in which the keys came. -/
theorem items_ofList (lawful : strategy.Lawful) (sets : List (κ × ν)) :
    (ofList strategy sets).items
      = (strategy.distinct (sets.map (·.1))).filterMap (strategy.latest? sets) := by
  induction sets using List.reverseRecOn with
  | nil => rfl
  | append_singleton sets entry ih =>
      obtain ⟨key, value⟩ := entry
      have found : ((ofList strategy sets).find? key).isSome
          = (sets.map (·.1)).any fun other => strategy.keysEqual other key := by
        rw [← KeyStrategy.isSome_latest?, ← find?_ofList lawful sets key, Option.isSome_map]
      have latest : strategy.latest? (sets ++ [(key, value)]) = fun other =>
          if strategy.keysEqual key other then some (key, value)
          else strategy.latest? sets other :=
        funext fun other => KeyStrategy.latest?_append sets key other value
      rw [ofList_append, (coherent_ofList lawful sets).items_set (by rwa [strategy_ofList]), found,
        ih, strategy_ofList, latest, List.map_append, List.map_singleton,
        KeyStrategy.distinct_append]
      cases again : (sets.map (·.1)).any fun other => strategy.keysEqual other key with
      | true =>
          simp only [if_true]
          rw [List.map_filterMap]
          refine List.filterMap_congr fun other inside => ?_
          obtain ⟨entry, last, equal⟩ :=
            lawful.exists_latest (KeyStrategy.mem_of_mem_distinct inside)
          rw [last, Option.map_some, lawful.congr equal, lawful.comm]
          split <;> rfl
      | false =>
          have others : ∀ other ∈ strategy.distinct (sets.map (·.1)),
              strategy.keysEqual key other = false := by
            intro other inside
            rw [List.any_eq_false] at again
            rw [lawful.comm]
            simpa using again other (KeyStrategy.mem_of_mem_distinct inside)
          simp only [Bool.false_eq_true, if_false]
          rw [List.filterMap_append, List.filterMap_cons, if_pos (lawful.refl key),
            List.filterMap_nil]
          congr 1
          refine List.filterMap_congr fun other inside => ?_
          rw [others other inside, if_neg Bool.false_ne_true]

theorem length_items_ofList (lawful : strategy.Lawful) (sets : List (κ × ν)) :
    (ofList strategy sets).items.length = (strategy.distinct (sets.map (·.1))).length := by
  rw [items_ofList lawful, List.length_filterMap_eq_countP, List.countP_eq_length]
  intro key inside
  obtain ⟨entry, last, _⟩ := lawful.exists_latest (KeyStrategy.mem_of_mem_distinct inside)
  rw [last]
  rfl

/-- A store into which entries are set one after the other answers for every key with what was set
last under an equal key. It counts the distinct keys, and it lists what was set last under each of
them, in the order in which they were set first. Each entry stands in the bucket of its key and
in the list of all entries, in the same order, and nothing else stands in either of them. -/
theorem store_is_association (lawful : strategy.Lawful) (sets : List (κ × ν)) :
    (∀ key, (ofList strategy sets).get? key = (strategy.latest? sets key).map (·.2))
      ∧ (∀ key fallback, (ofList strategy sets).getD key fallback
        = ((strategy.latest? sets key).map (·.2)).getD fallback)
      ∧ (∀ key, (ofList strategy sets).contains key = (strategy.latest? sets key).isSome)
      ∧ (ofList strategy sets).size = (strategy.distinct (sets.map (·.1))).length
      ∧ (ofList strategy sets).items
        = (strategy.distinct (sets.map (·.1))).filterMap (strategy.latest? sets)
      ∧ (ofList strategy sets).keys = (ofList strategy sets).items.map (·.1)
      ∧ ((ofList strategy sets).buckets.map (·.1)).Nodup
      ∧ (∀ bucket, (ofList strategy sets).held bucket
        = (ofList strategy sets).entries.filter fun entry => strategy.bucket entry.key = bucket)
      ∧ (ofList strategy sets).entries.Pairwise fun earlier later =>
        strategy.keysEqual earlier.key later.key = false := by
  have coherent := coherent_ofList lawful sets
  have answers : ∀ key, (ofList strategy sets).get? key
      = (strategy.latest? sets key).map (·.2) := by
    intro key
    rw [get?, ← find?_ofList lawful, Option.map_map]
    rfl
  refine ⟨answers, fun key fallback => ?_, fun key => ?_, ?_, items_ofList lawful sets, ?_,
    coherent.names, fun bucket => ?_, ?_⟩
  · rw [getD, answers]
  · rw [contains, ← find?_ofList lawful, Option.isSome_map]
  · rw [← length_items_ofList lawful, size, items, List.length_map]
  · rw [keys, items, List.map_map]
    rfl
  · rw [coherent.buckets, strategy_ofList]
  · have apart := coherent.apart
    rwa [strategy_ofList] at apart

end KeyedStore

/-- Numbers of which the last digit counts, in five buckets. -/
def lastDigit : KeyStrategy Nat Nat where
  bucket number := number % 5
  keysEqual left right := left % 10 == right % 10

theorem lawful_lastDigit : lastDigit.Lawful := by
  refine ⟨⟨fun number => beq_self_eq_true _, fun same => ?_, fun first second => ?_⟩,
    fun left right same => ?_⟩
  · exact beq_iff_eq.2 (beq_iff_eq.1 same).symm
  · exact beq_iff_eq.2 ((beq_iff_eq.1 first).trans (beq_iff_eq.1 second))
  · have digits : left % 10 = right % 10 := beq_iff_eq.1 same
    change left % 5 = right % 5
    omega

/-- Three and thirteen are one key, which keeps its place before eight, in whose bucket it is. -/
theorem thirteen_takes_the_place_of_three :
    lastDigit.Lawful
      ∧ (KeyedStore.ofList lastDigit [(3, "a"), (8, "b"), (13, "c"), (4, "d")]).items
        = [(13, "c"), (8, "b"), (4, "d")]
      ∧ (KeyedStore.ofList lastDigit [(3, "a"), (8, "b"), (13, "c"), (4, "d")]).get? 23 = some "c"
      ∧ ((KeyedStore.ofList lastDigit [(3, "a"), (8, "b"), (13, "c"), (4, "d")]).held 3).map (·.key)
        = [13, 8] := by
  obtain ⟨answers, _, _, _, items, _, _, held, _⟩ := KeyedStore.store_is_association
    lawful_lastDigit [(3, "a"), (8, "b"), (13, "c"), (4, "d")]
  refine ⟨lawful_lastDigit, ?_, ?_, ?_⟩
  · rw [items]
    decide
  · rw [answers]
    decide
  · rw [held]
    decide

end GraphQL
