import GraphQL.Proofs.ComplexityBound

/-!
Documents without spreads. Each spread of a fragment can be replaced by an inline fragment with a copy
of its selections. Where fragments do not spread each other in a cycle, no spread is left in the end,
and operations are as deep and as complex as before.
-/

namespace GraphQL

theorem Action.bind_bind {α β γ : Type} (action : Action α) (next : α → Action β)
    (last : β → Action γ) : action >>= next >>= last = action >>= fun value => next value >>= last := by
  refine (andThen_assoc action _ _).trans (congrArg action.andThen ?_)
  funext result
  cases result with
  | ok value => rfl
  | error failure => rfl

mutual

/-- Puts an inline fragment in the place of each spread whose condition and selections are known. -/
def Selection.unfold (body : String → Option (String × List Selection)) : Selection → Selection
  | .field start aliasName name arguments directives selections =>
    .field start aliasName name arguments directives (Selection.unfoldAll body selections)
  | .inlineFragment start condition directives selections =>
    .inlineFragment start condition directives (Selection.unfoldAll body selections)
  | .spread start name directives =>
    match body name with
    | some (condition, selections) =>
      .inlineFragment start (some condition) directives selections
    | none => .spread start name directives

def Selection.unfoldAll (body : String → Option (String × List Selection)) :
    List Selection → List Selection
  | [] => []
  | selection :: rest => selection.unfold body :: Selection.unfoldAll body rest

end

namespace Selection

/-- Replaces spreads by inline fragments, within each other up to a number of levels. -/
def inlineWithin (fragments : List Fragment) : (levels : Nat) → List Selection → List Selection
  | 0 => unfoldAll fun _ => none
  | levels + 1 => unfoldAll fun name =>
    (fragment? fragments name).map fun fragment =>
      (fragment.condition, inlineWithin fragments levels fragment.selections)

/-- Selections with an inline fragment in the place of every spread. -/
def inlined (fragments : List Fragment) (selections : List Selection) : List Selection :=
  inlineWithin fragments fragments.length selections

/-- What stands for a spread. -/
def bodyWithin (fragments : List Fragment) : (levels : Nat) → String →
    Option (String × List Selection)
  | 0, _ => none
  | levels + 1, name =>
    (fragment? fragments name).map fun fragment =>
      (fragment.condition, inlineWithin fragments levels fragment.selections)

theorem inlineWithin_eq (fragments : List Fragment) (levels : Nat) :
    inlineWithin fragments levels = unfoldAll (bodyWithin fragments levels) := by
  cases levels with
  | zero => rfl
  | succ levels => rfl

end Selection

def Operation.inlined (fragments : List Fragment) (operation : Operation) : Operation :=
  { operation with selections := Selection.inlined fragments operation.selections }

def Fragment.inlined (fragments : List Fragment) (fragment : Fragment) : Fragment :=
  { fragment with selections := Selection.inlined fragments fragment.selections }

def Definition.inlined (fragments : List Fragment) : Definition → Definition
  | operation found => operation (found.inlined fragments)
  | fragment found => fragment (found.inlined fragments)
  | typeSystem => typeSystem

/-- The document with an inline fragment in the place of every spread. -/
def Document.inlined (document : Document) : Document :=
  { document with definitions := document.definitions.map (·.inlined document.fragments) }

/-- The selections of a definition. -/
def Definition.selections : Definition → List Selection
  | operation found => found.selections
  | fragment found => found.selections
  | typeSystem => []

namespace Selection

variable {fragments : List Fragment} {rank : String → Nat}

/-- Only fragments are spread, of a rank below a bound. -/
def SpreadsBelow (fragments : List Fragment) (rank : String → Nat) (bound : Nat)
    (selections : List Selection) : Prop :=
  ∀ name ∈ spreadsOfAll selections,
    (∃ fragment, fragment? fragments name = some fragment) ∧ rank name < bound

theorem SpreadsBelow.mono {selections : List Selection} {bound more : Nat}
    (below : SpreadsBelow fragments rank bound selections) (le : bound ≤ more) :
    SpreadsBelow fragments rank more selections := by
  intro name member
  obtain ⟨found, less⟩ := below name member
  exact ⟨found, by omega⟩

theorem spreadsBelow_cons {bound : Nat} {selection : Selection} {rest : List Selection} :
    SpreadsBelow fragments rank bound (selection :: rest)
      ↔ SpreadsBelow fragments rank bound [selection] ∧ SpreadsBelow fragments rank bound rest := by
  simp only [SpreadsBelow, spreadsOfAll, List.append_nil, List.mem_append]
  constructor
  · intro both
    exact ⟨fun name member => both name (.inl member), fun name member => both name (.inr member)⟩
  · rintro ⟨first, later⟩ name (member | member)
    · exact first name member
    · exact later name member

end Selection

/-- A rank by which each fragment spreads fragments of a lower one only. -/
structure Fragment.Ranked (fragments : List Fragment) (rank : String → Nat) : Prop where
  lower : ∀ {name fragment}, fragment? fragments name = some fragment →
    Selection.SpreadsBelow fragments rank (rank name) fragment.selections
  few : ∀ {name fragment}, fragment? fragments name = some fragment →
    rank name < fragments.length

theorem name_of_fragment? {fragments : List Fragment} {name : String} {fragment : Fragment}
    (found : fragment? fragments name = some fragment) :
    fragment ∈ fragments ∧ fragment.name = name := by
  have same := List.find?_some found
  rw [beq_iff_eq] at same
  exact ⟨List.mem_of_find?_eq_some found, same⟩

/-- Fragments that do not spread each other in a cycle are ranked by the number of fragments that each
one leads to. -/
theorem Fragment.exists_ranked {fragments : List Fragment} (acyclic : Fragment.Acyclic fragments)
    (defined : ∀ fragment ∈ fragments, ∀ name ∈ Selection.spreadsOfAll fragment.selections,
      ∃ found, fragment? fragments name = some found) :
    ∃ rank, Fragment.Ranked fragments rank := by
  classical
  let names := (fragments.map (·.name)).toFinset
  let below (name : String) := names.filter fun other =>
    Relation.TransGen (Fragment.Spreads fragments) name other
  have known : ∀ {name fragment}, fragment? fragments name = some fragment → name ∈ names := by
    intro name fragment found
    obtain ⟨member, same⟩ := name_of_fragment? found
    exact List.mem_toFinset.2 (List.mem_map.2 ⟨fragment, member, same⟩)
  have fewer : names.card ≤ fragments.length := by
    have card := List.toFinset_card_le (fragments.map (·.name))
    rwa [List.length_map] at card
  refine ⟨fun name => (below name).card, ?_, ?_⟩
  · intro name fragment found inner member
    obtain ⟨other, defined⟩ := defined fragment (name_of_fragment? found).1 inner member
    refine ⟨⟨other, defined⟩, Finset.card_lt_card ?_⟩
    have step : Fragment.Spreads fragments name inner := ⟨fragment, found, member⟩
    refine Finset.ssubset_iff_subset_ne.2 ⟨?_, ?_⟩
    · intro last leads
      obtain ⟨inside, leads⟩ := Finset.mem_filter.1 leads
      exact Finset.mem_filter.2 ⟨inside, .head step leads⟩
    · intro same
      have reached : inner ∈ below name := Finset.mem_filter.2 ⟨known defined, .single step⟩
      rw [← same] at reached
      exact acyclic inner (Finset.mem_filter.1 reached).2
  · intro name fragment found
    have outside : name ∉ below name := fun inside => acyclic name (Finset.mem_filter.1 inside).2
    have proper : below name ⊂ names := by
      refine Finset.ssubset_iff_subset_ne.2 ⟨Finset.filter_subset _ _, ?_⟩
      intro same
      rw [same] at outside
      exact outside (known found)
    have less := Finset.card_lt_card proper
    omega

namespace Selection

variable {fragments : List Fragment} {rank : String → Nat}
  {body other : String → Option (String × List Selection)}

mutual

theorem unfold_congr (selection : Selection) (same : ∀ name ∈ selection.spreads, body name = other name) :
    selection.unfold body = selection.unfold other := by
  match selection with
  | .field _ _ _ _ _ selections =>
      rw [spreads] at same
      rw [unfold, unfold, unfoldAll_congr selections same]
  | .inlineFragment _ _ _ selections =>
      rw [spreads] at same
      rw [unfold, unfold, unfoldAll_congr selections same]
  | .spread _ name _ =>
      have equal := same name (by rw [spreads]; exact List.mem_cons_self)
      rw [unfold, unfold, equal]

theorem unfoldAll_congr (selections : List Selection)
    (same : ∀ name ∈ spreadsOfAll selections, body name = other name) :
    unfoldAll body selections = unfoldAll other selections := by
  match selections with
  | [] => rfl
  | selection :: rest =>
      rw [spreadsOfAll] at same
      rw [unfoldAll, unfoldAll,
        unfold_congr selection fun name member => same name (List.mem_append_left _ member),
        unfoldAll_congr rest fun name member => same name (List.mem_append_right _ member)]

end

/-- Once there are levels enough, more of them make no difference. -/
theorem inlineWithin_stable (ranked : Fragment.Ranked fragments rank) (levels more : Nat)
    (selections : List Selection) (below : SpreadsBelow fragments rank levels selections)
    (le : levels ≤ more) :
    inlineWithin fragments levels selections = inlineWithin fragments more selections := by
  induction levels generalizing more selections with
  | zero =>
      rw [inlineWithin_eq, inlineWithin_eq]
      apply unfoldAll_congr
      intro name member
      have less := (below name member).2
      omega
  | succ levels ih =>
      obtain ⟨rest, rfl⟩ : ∃ rest, more = rest + 1 := ⟨more - 1, by omega⟩
      rw [inlineWithin_eq, inlineWithin_eq]
      apply unfoldAll_congr
      intro name member
      obtain ⟨⟨fragment, found⟩, less⟩ := below name member
      have inner := (ranked.lower found).mono (show rank name ≤ levels by omega)
      simp only [bodyWithin, found, Option.map_some]
      rw [ih rest fragment.selections inner (by omega)]

theorem bodyWithin_length (ranked : Fragment.Ranked fragments rank) {name : String}
    {fragment : Fragment} (found : fragment? fragments name = some fragment) :
    bodyWithin fragments fragments.length name
      = some (fragment.condition, inlined fragments fragment.selections) := by
  have few := ranked.few found
  obtain ⟨rest, count⟩ : ∃ rest, fragments.length = rest + 1 := ⟨fragments.length - 1, by omega⟩
  have inner := (ranked.lower found).mono (show rank name ≤ rest by omega)
  rw [inlined, ← inlineWithin_stable ranked rest fragments.length _ inner (by omega), count, bodyWithin,
    found]
  rfl

section

variable (fragments)

theorem inlined_nil : inlined fragments [] = [] := by
  rw [inlined, inlineWithin_eq, unfoldAll]

theorem inlined_cons (selection : Selection) (rest : List Selection) :
    inlined fragments (selection :: rest)
      = selection.unfold (bodyWithin fragments fragments.length) :: inlined fragments rest := by
  rw [inlined, inlined, inlineWithin_eq, unfoldAll]

end

mutual

theorem spreads_unfold (selection : Selection)
    (free : ∀ name ∈ selection.spreads, ∃ condition selections,
      body name = some (condition, selections) ∧ spreadsOfAll selections = []) :
    (selection.unfold body).spreads = [] := by
  match selection with
  | .field _ _ _ _ _ selections =>
      rw [spreads] at free
      rw [unfold, spreads, spreadsOfAll_unfoldAll selections free]
  | .inlineFragment _ _ _ selections =>
      rw [spreads] at free
      rw [unfold, spreads, spreadsOfAll_unfoldAll selections free]
  | .spread _ name _ =>
      obtain ⟨condition, selections, found, none_⟩ := free name (by rw [spreads]; exact List.mem_cons_self)
      simp only [unfold, found, spreads, none_]

theorem spreadsOfAll_unfoldAll (selections : List Selection)
    (free : ∀ name ∈ spreadsOfAll selections, ∃ condition selections,
      body name = some (condition, selections) ∧ spreadsOfAll selections = []) :
    spreadsOfAll (unfoldAll body selections) = [] := by
  match selections with
  | [] => rfl
  | selection :: rest =>
      rw [spreadsOfAll] at free
      rw [unfoldAll, spreadsOfAll,
        spreads_unfold selection fun name member => free name (List.mem_append_left _ member),
        spreadsOfAll_unfoldAll rest fun name member => free name (List.mem_append_right _ member)]
      rfl

end

theorem spreadsOfAll_inlineWithin (ranked : Fragment.Ranked fragments rank) (levels : Nat)
    (selections : List Selection) (below : SpreadsBelow fragments rank levels selections) :
    spreadsOfAll (inlineWithin fragments levels selections) = [] := by
  induction levels generalizing selections with
  | zero =>
      rw [inlineWithin_eq]
      apply spreadsOfAll_unfoldAll
      intro name member
      have less := (below name member).2
      omega
  | succ levels ih =>
      rw [inlineWithin_eq]
      apply spreadsOfAll_unfoldAll
      intro name member
      obtain ⟨⟨fragment, found⟩, less⟩ := below name member
      have inner := (ranked.lower found).mono (show rank name ≤ levels by omega)
      refine ⟨fragment.condition, _, ?_, ih fragment.selections inner⟩
      rw [bodyWithin, found, Option.map_some]

mutual

theorem depth_unfold (spreadDepth depthOf : String → Nat) (selection : Selection)
    (deep : ∀ name ∈ selection.spreads, ∃ condition selections,
      body name = some (condition, selections)
        ∧ depthOfAll depthOf selections = spreadDepth name) :
    (selection.unfold body).depth depthOf = selection.depth spreadDepth := by
  match selection with
  | .field _ _ _ _ _ selections =>
      rw [spreads] at deep
      rw [unfold, depth, depth, depthOfAll_unfoldAll spreadDepth depthOf selections deep]
  | .inlineFragment _ _ _ selections =>
      rw [spreads] at deep
      rw [unfold, depth, depth, depthOfAll_unfoldAll spreadDepth depthOf selections deep]
  | .spread _ name _ =>
      obtain ⟨condition, selections, found, same⟩ := deep name (by rw [spreads]; exact List.mem_cons_self)
      simp only [unfold, found, depth, same]

theorem depthOfAll_unfoldAll (spreadDepth depthOf : String → Nat) (selections : List Selection)
    (deep : ∀ name ∈ spreadsOfAll selections, ∃ condition selections,
      body name = some (condition, selections)
        ∧ depthOfAll depthOf selections = spreadDepth name) :
    depthOfAll depthOf (unfoldAll body selections) = depthOfAll spreadDepth selections := by
  match selections with
  | [] => rfl
  | selection :: rest =>
      rw [spreadsOfAll] at deep
      rw [unfoldAll, depthOfAll, depthOfAll,
        depth_unfold spreadDepth depthOf selection fun name member =>
          deep name (List.mem_append_left _ member),
        depthOfAll_unfoldAll spreadDepth depthOf rest fun name member =>
          deep name (List.mem_append_right _ member)]

end

theorem depthOfAll_inlineWithin (ranked : Fragment.Ranked fragments rank) (depthOf : String → Nat)
    (levels bound : Nat) (within : List String) (selections : List Selection)
    (below : SpreadsBelow fragments rank bound selections) (le : bound ≤ levels)
    (outside : ∀ name ∈ within, bound ≤ rank name) :
    depthOfAll depthOf (inlineWithin fragments levels selections)
      = depthWithin fragments levels within selections := by
  induction levels generalizing bound within selections with
  | zero =>
      rw [inlineWithin_eq, depthWithin_eq]
      apply depthOfAll_unfoldAll
      intro name member
      have less := (below name member).2
      omega
  | succ levels ih =>
      rw [inlineWithin_eq, depthWithin_eq]
      apply depthOfAll_unfoldAll
      intro name member
      obtain ⟨⟨fragment, found⟩, less⟩ := below name member
      have apart : name ∉ within := by
        intro inside
        have high := outside name inside
        omega
      have same := ih (rank name) (name :: within) fragment.selections (ranked.lower found) (by omega) (by
        intro other inside
        rcases List.mem_cons.1 inside with rfl | before
        · exact Nat.le_refl _
        · have high := outside other before
          omega)
      refine ⟨fragment.condition, inlineWithin fragments levels fragment.selections, ?_, ?_⟩
      · rw [bodyWithin, found, Option.map_some]
      · simp only [spreadDepth, found, List.contains_iff_mem, apart, if_false]
        exact same

mutual

theorem addCost_unfold (scope : Scope) (others : List Fragment)
    (spreadCost costOf : String → Option (Action Value)) (selection : Selection)
    (parent : Option TypeId) (total : Value)
    (costs : ∀ name ∈ selection.spreads, ∃ condition selections,
      body name = some (condition, selections)
        ∧ spreadCost name = some (do
          let type ← scope.schema.named? condition
          costOfAll { scope with fragments := others } costOf type selections (.int 0))) :
    addCost { scope with fragments := others } costOf parent (selection.unfold body) total
      = addCost scope spreadCost parent selection total := by
  match selection with
  | .field _ _ _ _ _ selections =>
      rw [spreads] at costs
      have inner := fun type =>
        costOfAll_unfoldAll scope others spreadCost costOf selections type (.int 0) costs
      simp only [unfold, addCost, inner]
      rfl
  | .inlineFragment _ _ _ selections =>
      rw [spreads] at costs
      have inner := fun type =>
        costOfAll_unfoldAll scope others spreadCost costOf selections type (.int 0) costs
      simp only [unfold, addCost, inner]
      rfl
  | .spread _ name _ =>
      obtain ⟨condition, selections, found, same⟩ := costs name (by rw [spreads]; exact List.mem_cons_self)
      simp only [unfold, found, addCost, same, Action.bind_bind]
      rfl

theorem costOfAll_unfoldAll (scope : Scope) (others : List Fragment)
    (spreadCost costOf : String → Option (Action Value)) (selections : List Selection)
    (parent : Option TypeId) (total : Value)
    (costs : ∀ name ∈ spreadsOfAll selections, ∃ condition selections,
      body name = some (condition, selections)
        ∧ spreadCost name = some (do
          let type ← scope.schema.named? condition
          costOfAll { scope with fragments := others } costOf type selections (.int 0))) :
    costOfAll { scope with fragments := others } costOf parent (unfoldAll body selections) total
      = costOfAll scope spreadCost parent selections total := by
  match selections with
  | [] => rfl
  | selection :: rest =>
      rw [spreadsOfAll] at costs
      have first := addCost_unfold scope others spreadCost costOf selection parent total fun name member =>
        costs name (List.mem_append_left _ member)
      have later := fun total => costOfAll_unfoldAll scope others spreadCost costOf rest parent total
        fun name member => costs name (List.mem_append_right _ member)
      simp only [unfoldAll, costOfAll, first, later]

end

theorem costOfAll_inlineWithin {scope : Scope} (ranked : Fragment.Ranked scope.fragments rank)
    (others : List Fragment) (costOf : String → Option (Action Value)) (levels bound : Nat)
    (within : List String) (parent : Option TypeId) (selections : List Selection)
    (below : SpreadsBelow scope.fragments rank bound selections) (le : bound ≤ levels)
    (outside : ∀ name ∈ within, bound ≤ rank name) :
    costOfAll { scope with fragments := others } costOf parent
        (inlineWithin scope.fragments levels selections) (.int 0)
      = costWithin scope levels within parent selections := by
  induction levels generalizing bound within parent selections with
  | zero =>
      rw [inlineWithin_eq, costWithin]
      apply costOfAll_unfoldAll
      intro name member
      have less := (below name member).2
      omega
  | succ levels ih =>
      rw [inlineWithin_eq, costWithin]
      apply costOfAll_unfoldAll
      intro name member
      obtain ⟨⟨fragment, found⟩, less⟩ := below name member
      have apart : name ∉ within := by
        intro inside
        have high := outside name inside
        omega
      have same := fun type => ih (rank name) (name :: within) type fragment.selections
        (ranked.lower found) (by omega) (by
          intro other inside
          rcases List.mem_cons.1 inside with rfl | before
          · exact Nat.le_refl _
          · have high := outside other before
            omega)
      have free : within.contains name = false := by
        rw [← Bool.not_eq_true, List.contains_iff_mem]
        exact apart
      refine ⟨fragment.condition, inlineWithin scope.fragments levels fragment.selections, ?_, ?_⟩
      · rw [bodyWithin, found, Option.map_some]
      · simp only [found, same, free]
        rfl

end Selection

namespace Operation

variable {rank : String → Nat}

/-- An operation without spreads is as deep as before. -/
theorem depth_inlined {fragments : List Fragment} (ranked : Fragment.Ranked fragments rank)
    (operation : Operation) (others : List Fragment)
    (below : Selection.SpreadsBelow fragments rank fragments.length operation.selections) :
    (operation.inlined fragments).depth others = operation.depth fragments := by
  rw [depth, depth, inlined, Selection.depthWithin_eq, Selection.inlined]
  apply Selection.depthOfAll_inlineWithin ranked _ _ _ _ _ below (Nat.le_refl _)
  intro name member
  cases member

/-- An operation without spreads is as complex as before, for the same calls of the application. -/
theorem complexity_inlined {scope : Scope} (ranked : Fragment.Ranked scope.fragments rank)
    (operation : Operation) (others : List Fragment)
    (below : Selection.SpreadsBelow scope.fragments rank scope.fragments.length operation.selections) :
    Cost.complexity { scope with fragments := others } (operation.inlined scope.fragments)
      = Cost.complexity scope operation := by
  have any : ∀ parent, ∃ costOf,
      Selection.costWithin { scope with fragments := others } others.length [] parent
          (Selection.inlined scope.fragments operation.selections)
        = Selection.costOfAll { scope with fragments := others } costOf parent
          (Selection.inlined scope.fragments operation.selections) (.int 0) := by
    intro parent
    cases others with
    | nil => exact ⟨_, rfl⟩
    | cons first rest => exact ⟨_, rfl⟩
  rw [Cost.complexity, Cost.complexity, inlined]
  obtain ⟨costOf, same⟩ := any ((scope.schema.root operation.kind).bind Candidate.named?)
  refine same.trans ?_
  apply Selection.costOfAll_inlineWithin ranked _ _ _ _ _ _ _ below (Nat.le_refl _)
  intro name member
  cases member

end Operation

namespace Document

/-- The fragments that a document spreads. -/
def spreads (document : Document) : List String :=
  document.definitions.flatMap fun definition => Selection.spreadsOfAll definition.selections

/-- Every fragment that a document spreads is defined. -/
def SpreadsDefined (document : Document) : Prop :=
  ∀ name ∈ document.spreads, ∃ fragment, fragment? document.fragments name = some fragment

theorem mem_putFragment {fragments : List Fragment} {added fragment : Fragment}
    (member : fragment ∈ putFragment fragments added) : fragment ∈ fragments ∨ fragment = added := by
  induction fragments with
  | nil => exact .inr (List.mem_singleton.1 member)
  | cons first rest ih =>
      rw [putFragment] at member
      split at member
      · rcases List.mem_cons.1 member with same | later
        · exact .inr same
        · exact .inl (List.mem_cons_of_mem _ later)
      · rcases List.mem_cons.1 member with same | later
        · exact .inl (same ▸ List.mem_cons_self)
        · exact (ih later).imp_left (List.mem_cons_of_mem _)

theorem mem_foldl {step : List Fragment → Definition → List Fragment} {fragment : Fragment}
    (kept : ∀ made definition, fragment ∈ step made definition →
      fragment ∈ made ∨ definition = .fragment fragment)
    (definitions : List Definition) (made : List Fragment)
    (member : fragment ∈ definitions.foldl step made) :
    fragment ∈ made ∨ .fragment fragment ∈ definitions := by
  induction definitions generalizing made with
  | nil => exact .inl member
  | cons definition rest ih =>
      obtain before | later := ih _ member
      · obtain earlier | rfl := kept made definition before
        · exact .inl earlier
        · exact .inr List.mem_cons_self
      · exact .inr (List.mem_cons_of_mem _ later)

theorem mem_definitions {document : Document} {fragment : Fragment}
    (member : fragment ∈ document.fragments) : .fragment fragment ∈ document.definitions := by
  refine (mem_foldl (fun made definition inside => ?_) document.definitions [] member).resolve_left
    List.not_mem_nil
  cases definition with
  | fragment added => exact (mem_putFragment inside).imp_right fun same => congrArg _ same.symm
  | operation found => exact .inl inside
  | typeSystem => exact .inl inside

theorem spreads_of_mem {document : Document} {definition : Definition}
    (member : definition ∈ document.definitions) :
    Selection.spreadsOfAll definition.selections ⊆ document.spreads :=
  fun _ inside => List.mem_flatMap.2 ⟨definition, member, inside⟩

theorem exists_ranked {document : Document} (acyclic : Fragment.Acyclic document.fragments)
    (defined : document.SpreadsDefined) : ∃ rank, Fragment.Ranked document.fragments rank := by
  apply Fragment.exists_ranked acyclic
  intro fragment member name inside
  exact defined name (spreads_of_mem (mem_definitions member) inside)

theorem spreadsBelow_of_mem {document : Document} {rank : String → Nat}
    (ranked : Fragment.Ranked document.fragments rank) (defined : document.SpreadsDefined)
    {definition : Definition} (member : definition ∈ document.definitions) :
    Selection.SpreadsBelow document.fragments rank document.fragments.length
      definition.selections := by
  intro name inside
  obtain ⟨fragment, found⟩ := defined name (spreads_of_mem member inside)
  exact ⟨⟨fragment, found⟩, ranked.few found⟩

theorem selections_inlined (fragments : List Fragment) (definition : Definition) :
    (definition.inlined fragments).selections = Selection.inlined fragments definition.selections := by
  cases definition with
  | operation found => rfl
  | fragment found => rfl
  | typeSystem => exact (Selection.inlined_nil fragments).symm

theorem spreads_inlined {document : Document} (acyclic : Fragment.Acyclic document.fragments)
    (defined : document.SpreadsDefined) : document.inlined.spreads = [] := by
  obtain ⟨rank, ranked⟩ := exists_ranked acyclic defined
  rw [spreads, List.flatMap_eq_nil_iff]
  intro definition member
  obtain ⟨origin, inside, rfl⟩ := List.mem_map.1 member
  rw [selections_inlined]
  exact Selection.spreadsOfAll_inlineWithin ranked _ _ (spreadsBelow_of_mem ranked defined inside)

theorem operations_inlined (document : Document) :
    document.inlined.operations = document.operations.map (·.inlined document.fragments) := by
  rw [operations, operations, inlined, List.filterMap_map, List.map_filterMap]
  congr 1
  funext definition
  cases definition <;> rfl

theorem choose_inlined (document : Document) (name : Option String) :
    document.inlined.choose name = (document.choose name).map (·.inlined document.fragments) := by
  unfold choose
  rw [operations_inlined]
  cases name with
  | none =>
      cases document.operations with
      | nil => rfl
      | cons operation rest =>
          cases rest with
          | nil => rfl
          | cons other rest => rfl
  | some name =>
      have found : (document.operations.map (·.inlined document.fragments)).find? (·.name == some name)
          = (document.operations.find? (·.name == some name)).map (·.inlined document.fragments) := by
        rw [List.find?_map]
        rfl
      simp only [found]
      cases document.operations.find? (·.name == some name) with
      | none => rfl
      | some operation => rfl

theorem mem_definitions_of_choose {document : Document} {name : Option String} {operation : Operation}
    (chosen : document.choose name = .ok operation) :
    .operation operation ∈ document.definitions := by
  have listed : operation ∈ document.operations := by
    unfold choose at chosen
    cases name with
    | none =>
        simp only at chosen
        split at chosen
        · cases chosen
        · next only_ =>
            cases chosen
            rw [only_]
            exact List.mem_singleton.2 rfl
        · cases chosen
    | some name =>
        simp only at chosen
        split at chosen
        · next found =>
            cases chosen
            exact List.mem_of_find?_eq_some found
        · cases chosen
  obtain ⟨definition, member, same⟩ := List.mem_filterMap.1 listed
  cases definition with
  | operation found =>
      cases same
      exact member
  | fragment found => cases same
  | typeSystem => cases same

end Document

end GraphQL
