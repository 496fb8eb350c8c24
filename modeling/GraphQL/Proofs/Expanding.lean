import GraphQL.Proofs.Inlining

/-!
Collecting from documents with and without spreads. A fragment is expanded once where its fields are
collected, while inline fragments in the place of its spreads are taken as often as they stand there.
All that this adds are fields that were found before, so that the keys, their order and the first node
of each are the same.
-/

namespace GraphQL

namespace Action

variable {α β : Type}

/-- What an action comes to if every call is always answered in the same way. -/
def result (answer : Call → Reply) : Action α → Except Failure α
  | done found => found
  | call asked next => (next (answer asked)).result answer

variable {answer : Call → Reply}

theorem result_bind (action : Action α) (next : α → Action β) :
    (action >>= next).result answer
      = action.result answer >>= fun value => (next value).result answer := by
  have same : ∀ after : Except Failure α → Action β,
      (action.andThen after).result answer = (after (action.result answer)).result answer := by
    intro after
    induction action with
    | done found => rfl
    | call asked reply ih => exact ih (answer asked)
  refine (same _).trans ?_
  cases action.result answer with
  | ok value => rfl
  | error failure => rfl

theorem result_lift (checked : Except SchemaFault α) :
    (liftM checked : Action α).result answer = checked.mapError .schema := rfl

end Action

mutual

/-- The fields that a selection without spreads asks for, one after the other. -/
def Selection.asked (takes : List DirectiveNode → Except Failure Bool)
    (fits : Option String → Except Failure Bool) : Selection → Except Failure (List FieldNode)
  | .field start aliasName name arguments directives selections => do
    if ← takes directives then
      return [⟨start, aliasName, name, arguments, directives, selections⟩]
    else return []
  | .inlineFragment _ condition directives selections => do
    if ← takes directives then
      if ← fits condition then Selection.askedAll takes fits selections else return []
    else return []
  | .spread .. => return []

def Selection.askedAll (takes : List DirectiveNode → Except Failure Bool)
    (fits : Option String → Except Failure Bool) : List Selection → Except Failure (List FieldNode)
  | [] => return []
  | selection :: rest => do
    return (← selection.asked takes fits) ++ (← Selection.askedAll takes fits rest)

end

/-- Adds nodes one after the other. -/
def Collected.addAll (collected : Collected) (nodes : List FieldNode) : Collected :=
  nodes.foldl add collected

def Gathering.addAll (gathering : Gathering) (nodes : List FieldNode) : Gathering :=
  { gathering with fields := gathering.fields.addAll nodes }

theorem Gathering.addAll_append (gathering : Gathering) (nodes more : List FieldNode) :
    gathering.addAll (nodes ++ more) = (gathering.addAll nodes).addAll more := by
  unfold addAll Collected.addAll
  rw [List.foldl_append]

namespace Scope

/-- Whether directives let a node take part. -/
def takes (scope : Scope) (answer : Call → Reply) (directives : List DirectiveNode) :
    Except Failure Bool :=
  (scope.isIncluded directives).result answer

/-- Whether a condition fits an object type. -/
def fits (scope : Scope) (type : TypeId) (condition : Option String) : Except Failure Bool :=
  (scope.applies condition type).mapError .schema

/-- The fields that selections without spreads ask for. -/
def asks (scope : Scope) (answer : Call → Reply) (type : TypeId) (selections : List Selection) :
    Except Failure (List FieldNode) :=
  Selection.askedAll (scope.takes answer) (scope.fits type) selections

end Scope

namespace Selection

variable {scope : Scope} {answer : Call → Reply} {type : TypeId}

mutual

theorem result_gather (expand : Expansion) (selection : Selection) (gathering : Gathering)
    (free : selection.spreads = []) :
    (gather scope type expand selection gathering).result answer
      = (selection.asked (scope.takes answer) (scope.fits type)).map gathering.addAll := by
  match selection with
  | .field start aliasName name arguments directives selections =>
      rw [gather, Action.result_bind, asked, Scope.takes]
      cases (scope.isIncluded directives).result answer with
      | error failure => rfl
      | ok included => cases included <;> rfl
  | .inlineFragment _ condition directives selections =>
      rw [spreads] at free
      have inner := result_gatherAll expand selections gathering free
      simp only [gather, Action.result_bind, apply_ite (Action.result answer), Action.result_lift, inner]
      rw [asked, Scope.takes, Scope.fits]
      cases (scope.isIncluded directives).result answer with
      | error failure => rfl
      | ok included =>
          cases included with
          | false => rfl
          | true =>
              cases (scope.applies condition type).mapError Failure.schema with
              | error failure => rfl
              | ok applies => cases applies <;> rfl
  | .spread _ name _ =>
      rw [spreads] at free
      cases free

theorem result_gatherAll (expand : Expansion) (selections : List Selection) (gathering : Gathering)
    (free : spreadsOfAll selections = []) :
    (gatherAll scope type expand selections gathering).result answer
      = (scope.asks answer type selections).map gathering.addAll := by
  match selections with
  | [] => rfl
  | selection :: rest =>
      rw [spreadsOfAll, List.append_eq_nil_iff] at free
      have first := result_gather expand selection gathering free.1
      have later := fun after => result_gatherAll expand rest after free.2
      rw [gatherAll, Action.result_bind, first, Scope.asks, askedAll]
      simp only [later, Scope.asks]
      cases selection.asked (scope.takes answer) (scope.fits type) with
      | error failure => rfl
      | ok nodes =>
          cases askedAll (scope.takes answer) (scope.fits type) rest with
          | error failure => rfl
          | ok more =>
              show Except.ok ((gathering.addAll nodes).addAll more) = .ok (gathering.addAll (nodes ++ more))
              rw [Gathering.addAll_append]

end

end Selection

mutual

/-- The directives of the spreads in a selection, on any level. -/
def Selection.spreadDirectives : Selection → List (List DirectiveNode)
  | .field _ _ _ _ _ selections => Selection.spreadDirectivesOfAll selections
  | .inlineFragment _ _ _ selections => Selection.spreadDirectivesOfAll selections
  | .spread _ _ directives => [directives]

def Selection.spreadDirectivesOfAll : List Selection → List (List DirectiveNode)
  | [] => []
  | selection :: rest => selection.spreadDirectives ++ Selection.spreadDirectivesOfAll rest

end

def FieldNode.inlined (fragments : List Fragment) (node : FieldNode) : FieldNode :=
  { node with selections := Selection.inlined fragments node.selections }

namespace Scope

variable (scope : Scope) (answer : Call → Reply)

/-- The directives of all spreads in selections can be read. -/
def Decides (selections : List Selection) : Prop :=
  ∀ directives ∈ Selection.spreadDirectivesOfAll selections,
    ∃ included, scope.takes answer directives = .ok included

/-- Selections in which every spread can be replaced. -/
structure Expands (rank : String → Nat) (bound : Nat) (selections : List Selection) : Prop where
  below : Selection.SpreadsBelow scope.fragments rank bound selections
  decides : scope.Decides answer selections

/-- Fragments in which every spread can be replaced. -/
structure Grounded (rank : String → Nat) : Prop where
  ranked : Fragment.Ranked scope.fragments rank
  decides : ∀ {name fragment}, fragment? scope.fragments name = some fragment →
    scope.Decides answer fragment.selections

/-- Nodes and the same nodes without spreads, of which some are repeated. -/
inductive Repeats (rank : String → Nat) : List FieldNode → List FieldNode → Prop where
  | nil : Repeats rank [] []
  | both {nodes others : List FieldNode} (node : FieldNode) :
    Repeats rank nodes others →
    scope.Expands answer rank scope.fragments.length node.selections →
    Repeats rank (nodes ++ [node]) (others ++ [node.inlined scope.fragments])
  | again {nodes others : List FieldNode} {node : FieldNode} :
    Repeats rank nodes others → node ∈ others → Repeats rank nodes (others ++ [node])

/-- Collected fields and the same fields without spreads. -/
def Merges (rank : String → Nat) : Collected → Collected → Prop :=
  List.Forall₂ fun entry other =>
    entry.1 = other.1 ∧ scope.Repeats answer rank entry.2 other.2

end Scope

section

variable {scope : Scope} {answer : Call → Reply} {rank : String → Nat} {bound : Nat}
  {nodes others : List FieldNode}

theorem Scope.Decides.of_cons {selection : Selection} {rest : List Selection}
    (decides : scope.Decides answer (selection :: rest)) :
    scope.Decides answer [selection] ∧ scope.Decides answer rest := by
  simp only [Scope.Decides, Selection.spreadDirectivesOfAll, List.append_nil] at decides ⊢
  constructor
  · exact fun directives member => decides directives (List.mem_append_left _ member)
  · exact fun directives member => decides directives (List.mem_append_right _ member)

namespace Scope.Expands

theorem of_cons {selection : Selection} {rest : List Selection}
    (expands : scope.Expands answer rank bound (selection :: rest)) :
    scope.Expands answer rank bound [selection] ∧ scope.Expands answer rank bound rest := by
  obtain ⟨first, later⟩ := Selection.spreadsBelow_cons.1 expands.below
  obtain ⟨decides, others⟩ := expands.decides.of_cons
  exact ⟨⟨first, decides⟩, ⟨later, others⟩⟩

theorem mono {more : Nat} {selections : List Selection}
    (expands : scope.Expands answer rank bound selections) (le : bound ≤ more) :
    scope.Expands answer rank more selections :=
  ⟨expands.below.mono le, expands.decides⟩

theorem field {start : Nat} {aliasName : Option String} {name : String}
    {arguments : List ArgumentNode} {directives : List DirectiveNode} {selections : List Selection}
    (expands : scope.Expands answer rank bound
      [.field start aliasName name arguments directives selections]) :
    scope.Expands answer rank bound selections := by
  obtain ⟨below, decides⟩ := expands
  simp only [Selection.SpreadsBelow, Scope.Decides, Selection.spreadsOfAll,
    Selection.spreadDirectivesOfAll, Selection.spreads, Selection.spreadDirectives, List.append_nil]
    at below decides
  exact ⟨below, decides⟩

theorem inlineFragment {start : Nat} {condition : Option String} {directives : List DirectiveNode}
    {selections : List Selection}
    (expands : scope.Expands answer rank bound
      [.inlineFragment start condition directives selections]) :
    scope.Expands answer rank bound selections := by
  obtain ⟨below, decides⟩ := expands
  simp only [Selection.SpreadsBelow, Scope.Decides, Selection.spreadsOfAll,
    Selection.spreadDirectivesOfAll, Selection.spreads, Selection.spreadDirectives, List.append_nil]
    at below decides
  exact ⟨below, decides⟩

theorem spread {start : Nat} {name : String} {directives : List DirectiveNode}
    (expands : scope.Expands answer rank bound [.spread start name directives]) :
    (∃ fragment, fragment? scope.fragments name = some fragment) ∧ rank name < bound
      ∧ ∃ included, scope.takes answer directives = .ok included := by
  obtain ⟨found, less⟩ := expands.below name (by
    simp only [Selection.spreadsOfAll, Selection.spreads]
    exact List.mem_cons_self)
  refine ⟨found, less, expands.decides directives ?_⟩
  simp only [Selection.spreadDirectivesOfAll, Selection.spreadDirectives]
  exact List.mem_cons_self

end Scope.Expands

theorem Scope.Grounded.expands (grounded : scope.Grounded answer rank) {name : String}
    {fragment : Fragment} (found : fragment? scope.fragments name = some fragment) :
    scope.Expands answer rank (rank name) fragment.selections :=
  ⟨grounded.ranked.lower found, grounded.decides found⟩

namespace Scope.Repeats

/-- Whatever is repeated may be repeated once more. -/
theorem append_again (repeats : scope.Repeats answer rank nodes others) {more : List FieldNode}
    (inside : more ⊆ others) : scope.Repeats answer rank nodes (others ++ more) := by
  induction more generalizing others with
  | nil =>
      rw [List.append_nil]
      exact repeats
  | cons node rest ih =>
      obtain ⟨first, later⟩ := List.cons_subset.1 inside
      have step := ih (repeats.again first) (List.Subset.trans later (List.subset_append_left _ _))
      rwa [List.append_assoc] at step

theorem head? (repeats : scope.Repeats answer rank nodes others) :
    others.head? = nodes.head?.map (·.inlined scope.fragments) := by
  induction repeats with
  | nil => rfl
  | both node _ _ ih =>
      rw [List.head?_append, List.head?_append, ih]
      cases (List.head? _) <;> rfl
  | again _ member ih =>
      obtain ⟨first, rest, same⟩ := List.exists_cons_of_ne_nil (List.ne_nil_of_mem member)
      rw [← ih, same]
      rfl

theorem exists_origin (repeats : scope.Repeats answer rank nodes others) {node : FieldNode}
    (member : node ∈ others) : ∃ origin : FieldNode,
      scope.Expands answer rank scope.fragments.length origin.selections
        ∧ node = origin.inlined scope.fragments := by
  induction repeats with
  | nil => cases member
  | both origin _ expands ih =>
      rcases List.mem_append.1 member with before | last
      · exact ih before
      · exact ⟨origin, expands, List.mem_singleton.1 last⟩
  | again _ earlier ih =>
      rcases List.mem_append.1 member with before | last
      · exact ih before
      · obtain rfl := List.mem_singleton.1 last
        exact ih earlier

end Scope.Repeats

namespace Collected

/-- Whether a node is one of the first group of its key. -/
def Finds (collected : Collected) (node : FieldNode) : Prop :=
  ∃ nodes, collected.lookup node.responseKey = some nodes ∧ node ∈ nodes

theorem finds_add (collected : Collected) (added node : FieldNode)
    (finds : collected.Finds node ∨ node = added) : (collected.add added).Finds node := by
  induction collected with
  | nil =>
      obtain ⟨nodes, found, _⟩ | rfl := finds
      · cases found
      · refine ⟨[node], ?_, List.mem_cons_self⟩
        simp only [add, List.lookup_cons, beq_self_eq_true]
  | cons entry rest ih =>
      obtain ⟨key, group⟩ := entry
      rw [add]
      by_cases here : node.responseKey = key
      · -- The node is, or is to be, in the first group.
        subst here
        have before : node ∈ group ∨ node = added := by
          obtain ⟨nodes, found, inside⟩ | same := finds
          · simp only [List.lookup_cons, beq_self_eq_true, Option.some.injEq] at found
            exact .inl (found ▸ inside)
          · exact .inr same
        by_cases shared : node.responseKey = added.responseKey
        · rw [if_pos shared]
          refine ⟨group ++ [added], ?_, ?_⟩
          · simp only [List.lookup_cons, beq_self_eq_true]
          · obtain inside | rfl := before
            · exact List.mem_append_left _ inside
            · exact List.mem_append_right _ List.mem_cons_self
        · rw [if_neg shared]
          obtain inside | rfl := before
          · refine ⟨group, ?_, inside⟩
            simp only [List.lookup_cons, beq_self_eq_true]
          · exact absurd rfl shared
      · have apart : (node.responseKey == key) = false := by simpa using here
        have later : (add rest added).Finds node := by
          apply ih
          obtain ⟨nodes, found, inside⟩ | same := finds
          · simp only [List.lookup_cons, apart] at found
            exact .inl ⟨nodes, found, inside⟩
          · exact .inr same
        obtain ⟨nodes, found, inside⟩ := later
        by_cases shared : key = added.responseKey
        · rw [if_pos shared]
          obtain ⟨nodes, found, inside⟩ | same := finds
          · refine ⟨nodes, ?_, inside⟩
            simp only [List.lookup_cons, apart] at found ⊢
            exact found
          · exact absurd (same ▸ shared.symm) here
        · rw [if_neg shared]
          refine ⟨nodes, ?_, inside⟩
          simp only [List.lookup_cons, apart]
          exact found

end Collected

namespace Scope

theorem merges_add {left right : Collected} (merges : scope.Merges answer rank left right)
    (node : FieldNode)
    (expands : scope.Expands answer rank scope.fragments.length node.selections) :
    scope.Merges answer rank (left.add node) (right.add (node.inlined scope.fragments)) := by
  induction merges with
  | nil => exact .cons ⟨rfl, .both node .nil expands⟩ .nil
  | @cons entry other _ _ first later ih =>
      obtain ⟨key, group⟩ := entry
      obtain ⟨_, more⟩ := other
      obtain ⟨same, repeats⟩ := first
      dsimp only at same repeats
      subst same
      have answersTo : (node.inlined scope.fragments).responseKey = node.responseKey := rfl
      rw [Collected.add, Collected.add, answersTo]
      by_cases shared : key = node.responseKey
      · rw [if_pos shared, if_pos shared]
        exact .cons ⟨rfl, .both node repeats expands⟩ later
      · rw [if_neg shared, if_neg shared]
        exact .cons ⟨rfl, repeats⟩ ih

theorem merges_again {left right : Collected} (merges : scope.Merges answer rank left right)
    {node : FieldNode} (finds : right.Finds node) :
    scope.Merges answer rank left (right.add node) := by
  induction merges with
  | nil =>
      obtain ⟨nodes, found, _⟩ := finds
      cases found
  | @cons entry other _ rest first later ih =>
      obtain ⟨key, group⟩ := entry
      obtain ⟨_, more⟩ := other
      obtain ⟨same, repeats⟩ := first
      dsimp only at same repeats
      subst same
      obtain ⟨nodes, found, inside⟩ := finds
      rw [Collected.add]
      by_cases shared : key = node.responseKey
      · subst shared
        simp only [List.lookup_cons, beq_self_eq_true, Option.some.injEq] at found
        subst found
        rw [if_pos rfl]
        exact .cons ⟨rfl, repeats.again inside⟩ later
      · have apart : (node.responseKey == key) = false := by simpa using Ne.symm shared
        simp only [List.lookup_cons, apart] at found
        rw [if_neg shared]
        exact .cons ⟨rfl, repeats⟩ (ih ⟨nodes, found, inside⟩)

end Scope

theorem Collected.finds_addAll (nodes : List FieldNode) {node : FieldNode} (member : node ∈ nodes) :
    (addAll [] nodes).Finds node := by
  induction nodes using List.reverseRecOn with
  | nil => cases member
  | append_singleton before last ih =>
      rw [addAll, List.foldl_append]
      apply finds_add
      rcases List.mem_append.1 member with earlier | here
      · exact .inl (ih earlier)
      · exact .inr (List.mem_singleton.1 here)

theorem Scope.Repeats.merges (repeats : scope.Repeats answer rank nodes others) :
    scope.Merges answer rank (Collected.addAll [] nodes) (Collected.addAll [] others) := by
  induction repeats with
  | nil => exact .nil
  | both node _ expands ih =>
      rw [Collected.addAll, Collected.addAll, List.foldl_append, List.foldl_append]
      exact merges_add ih node expands
  | again _ member ih =>
      rw [Collected.addAll, Collected.addAll, List.foldl_append]
      exact merges_again ih (Collected.finds_addAll _ member)

/-- What the selections of a fragment ask for, if it fits. -/
def Scope.asksOf (scope : Scope) (answer : Call → Reply) (type : TypeId) (fragment : Fragment) :
    Except Failure (List FieldNode) := do
  if ← scope.fits type (some fragment.condition) then
    scope.asks answer type (Selection.inlined scope.fragments fragment.selections)
  else return []

/-- A gathering that has found the same fields as were found without spreads. Fragments of a rank below
the bound that were expanded have been expanded to their end. -/
structure Gathering.Follows (scope : Scope) (answer : Call → Reply) (rank : String → Nat)
    (type : TypeId) (bound : Nat) (gathering : Gathering) (others : List FieldNode) : Prop where
  fields : ∃ nodes, gathering.fields = Collected.addAll [] nodes
    ∧ scope.Repeats answer rank nodes others
  expanded : ∀ name ∈ gathering.expanded, rank name < bound → ∀ fragment,
    fragment? scope.fragments name = some fragment →
      ∃ found, scope.asksOf answer type fragment = .ok found ∧ found ⊆ others

/-- Gathering comes to the same as without spreads. -/
def Gathering.Gathers (scope : Scope) (answer : Call → Reply) (rank : String → Nat)
    (type : TypeId) (bound : Nat) (before : Gathering) (others : List FieldNode)
    (asked : Except Failure (List FieldNode)) (made : Except Failure Gathering) : Prop :=
  match asked with
  | .error failure => made = .error failure
  | .ok nodes => ∃ after, made = .ok after
    ∧ after.Follows scope answer rank type bound (others ++ nodes)
    ∧ ∀ name ∈ after.expanded, name ∈ before.expanded ∨ rank name < bound

namespace Gathering

variable {type : TypeId} {before : Gathering}

theorem Follows.more (follows : before.Follows scope answer rank type bound others)
    {more : List FieldNode} (inside : more ⊆ others) :
    before.Follows scope answer rank type bound (others ++ more) := by
  obtain ⟨nodes, same, repeats⟩ := follows.fields
  refine ⟨⟨nodes, same, repeats.append_again inside⟩, ?_⟩
  intro name member less fragment found
  obtain ⟨asked, same, known⟩ := follows.expanded name member less fragment found
  exact ⟨asked, same, List.Subset.trans known (List.subset_append_left _ _)⟩

theorem gathers_again (follows : before.Follows scope answer rank type bound others)
    {more : List FieldNode} (inside : more ⊆ others) :
    before.Gathers scope answer rank type bound others (.ok more) (.ok before) :=
  ⟨before, rfl, follows.more inside, fun _ member => .inl member⟩

theorem gathers_nothing (follows : before.Follows scope answer rank type bound others) :
    before.Gathers scope answer rank type bound others (.ok []) (.ok before) :=
  gathers_again follows (List.nil_subset _)

theorem gathers_field (follows : before.Follows scope answer rank type bound others)
    (node : FieldNode)
    (expands : scope.Expands answer rank scope.fragments.length node.selections) :
    before.Gathers scope answer rank type bound others (.ok [node.inlined scope.fragments])
      (.ok (before.addField node)) := by
  obtain ⟨nodes, same, repeats⟩ := follows.fields
  refine ⟨_, rfl, ⟨⟨nodes ++ [node], ?_, repeats.both node expands⟩, ?_⟩, fun _ member => .inl member⟩
  · rw [Collected.addAll, List.foldl_append]
    exact congrArg (Collected.add · node) same
  · intro name member less fragment found
    obtain ⟨asked, same, known⟩ := follows.expanded name member less fragment found
    exact ⟨asked, same, List.Subset.trans known (List.subset_append_left _ _)⟩

theorem Gathers.bind {asked later : Except Failure (List FieldNode)} {made : Except Failure Gathering}
    {next : Gathering → Except Failure Gathering}
    (first : before.Gathers scope answer rank type bound others asked made)
    (second : ∀ (middle : Gathering) (nodes : List FieldNode),
      middle.Follows scope answer rank type bound (others ++ nodes) →
      middle.Gathers scope answer rank type bound (others ++ nodes) later (next middle)) :
    before.Gathers scope answer rank type bound others (do return (← asked) ++ (← later))
      (made >>= next) := by
  cases asked with
  | error failure =>
      have failed : made = .error failure := first
      rw [failed]
      exact rfl
  | ok nodes =>
      obtain ⟨middle, rfl, following, grown⟩ := first
      have last := second middle nodes following
      cases later with
      | error failure => exact last
      | ok more =>
          obtain ⟨after, made, follows, grew⟩ := last
          rw [List.append_assoc] at follows
          refine ⟨after, made, follows, ?_⟩
          intro name member
          obtain before | small := grew name member
          · exact grown name before
          · exact .inr small

/-- A fragment is marked as expanded before it is, and its fields are all found in the end. -/
theorem gathers_marked {name : String} {fragment : Fragment}
    (follows : before.Follows scope answer rank type bound others)
    (found : fragment? scope.fragments name = some fragment) (less : rank name < bound)
    {asked : Except Failure (List FieldNode)} {made : Except Failure Gathering}
    (own : scope.asksOf answer type fragment = asked)
    (gathers : ∀ marked : Gathering, marked.Follows scope answer rank type (rank name) others →
      marked = { before with expanded := before.expanded ++ [name] } →
      marked.Gathers scope answer rank type (rank name) others asked made) :
    before.Gathers scope answer rank type bound others asked made := by
  have lower := gathers { before with expanded := before.expanded ++ [name] } (by
    refine ⟨follows.fields, ?_⟩
    intro other member below fragment found
    rcases List.mem_append.1 member with earlier | here
    · exact follows.expanded other earlier (by omega) fragment found
    · rw [List.mem_singleton.1 here] at below
      omega) rfl
  cases asked with
  | error failure => exact lower
  | ok nodes =>
      obtain ⟨after, same, later, grown⟩ := lower
      refine ⟨after, same, ⟨later.fields, ?_⟩, ?_⟩
      · intro other member below fragment' found'
        obtain marked | small := grown other member
        · rcases List.mem_append.1 marked with earlier | here
          · obtain ⟨asked, same, known⟩ := follows.expanded other earlier below fragment' found'
            exact ⟨asked, same, List.Subset.trans known (List.subset_append_left _ _)⟩
          · obtain rfl := List.mem_singleton.1 here
            rw [found] at found'
            cases found'
            exact ⟨nodes, own, List.subset_append_right _ _⟩
        · exact later.expanded other member small fragment' found'
      · intro other member
        obtain marked | small := grown other member
        · rcases List.mem_append.1 marked with earlier | here
          · exact .inl earlier
          · rw [List.mem_singleton.1 here]
            exact .inr less
        · exact .inr (by omega)

end Gathering

namespace Selection

open Gathering

variable {type : TypeId}

/-- The selections of a fragment are gathered as without spreads. -/
def Reaches (scope : Scope) (answer : Call → Reply) (rank : String → Nat) (type : TypeId)
    (expand : Expansion) (name : String) (fragment : Fragment) : Prop :=
  ∀ (before : Gathering) (others : List FieldNode),
    before.Follows scope answer rank type (rank name) others →
      before.Gathers scope answer rank type (rank name) others
        (scope.asks answer type (inlined scope.fragments fragment.selections))
        ((expand fragment.selections before).result answer)

/-- A spread is gathered as the inline fragment in its place. -/
theorem gathers_spread {expand : Expansion} {name : String} {fragment : Fragment}
    (found : fragment? scope.fragments name = some fragment) (less : rank name < bound)
    (inner : Reaches scope answer rank type expand name fragment) (before : Gathering)
    (others : List FieldNode)
    (follows : before.Follows scope answer rank type bound others) :
    before.Gathers scope answer rank type bound others (scope.asksOf answer type fragment)
      ((gatherSpread scope type expand name before).result answer) := by
  apply gathers_marked follows found less rfl
  intro marked lower same
  simp only [gatherSpread, found, Action.result_bind, Action.result_lift,
    apply_ite (Action.result answer), ← same]
  rw [Scope.asksOf, Scope.fits]
  cases (scope.applies (some fragment.condition) type).mapError Failure.schema with
  | error failure => exact rfl
  | ok applies =>
      cases applies with
      | false => exact gathers_nothing lower
      | true => exact inner marked others lower

mutual

theorem gathers_gather (grounded : scope.Grounded answer rank) (le : bound ≤ scope.fragments.length)
    {expand : Expansion}
    (inner : ∀ name fragment, fragment? scope.fragments name = some fragment → rank name < bound →
      Reaches scope answer rank type expand name fragment)
    (selection : Selection) (expands : scope.Expands answer rank bound [selection])
    (before : Gathering) (others : List FieldNode)
    (follows : before.Follows scope answer rank type bound others) :
    before.Gathers scope answer rank type bound others
      ((selection.unfold (bodyWithin scope.fragments scope.fragments.length)).asked
        (scope.takes answer) (scope.fits type))
      ((gather scope type expand selection before).result answer) := by
  match selection with
  | .field start aliasName name arguments directives selections =>
      rw [unfold, asked, gather, Action.result_bind, Scope.takes]
      cases (scope.isIncluded directives).result answer with
      | error failure => exact rfl
      | ok included =>
          cases included with
          | false => exact gathers_nothing follows
          | true =>
              have same : unfoldAll (bodyWithin scope.fragments scope.fragments.length) selections
                  = inlined scope.fragments selections := by
                rw [inlined, inlineWithin_eq]
              rw [same]
              exact gathers_field follows ⟨start, aliasName, name, arguments, directives, selections⟩
                (expands.field.mono le)
  | .inlineFragment _ condition directives selections =>
      have all := gathers_gatherAll grounded le inner selections expands.inlineFragment before others
        follows
      simp only [gather, Action.result_bind, Action.result_lift, apply_ite (Action.result answer)]
      rw [unfold, asked, Scope.takes]
      cases (scope.isIncluded directives).result answer with
      | error failure => exact rfl
      | ok included =>
          cases included with
          | false => exact gathers_nothing follows
          | true =>
              rw [Scope.fits]
              cases (scope.applies condition type).mapError Failure.schema with
              | error failure => exact rfl
              | ok applies =>
                  cases applies with
                  | false => exact gathers_nothing follows
                  | true =>
                      rw [Scope.asks, inlined, inlineWithin_eq] at all
                      exact all
  | .spread start name directives =>
      obtain ⟨⟨fragment, found⟩, less, included, decided⟩ := expands.spread
      have stands : (Selection.spread start name directives).unfold
          (bodyWithin scope.fragments scope.fragments.length)
          = .inlineFragment start (some fragment.condition) directives
            (inlined scope.fragments fragment.selections) := by
        rw [unfold, bodyWithin_length grounded.ranked found]
      have asked_ : (Selection.inlineFragment start (some fragment.condition) directives
          (inlined scope.fragments fragment.selections)).asked (scope.takes answer) (scope.fits type)
          = if included then scope.asksOf answer type fragment else .ok [] := by
        rw [asked, decided]
        cases included <;> rfl
      rw [stands, asked_, gather]
      by_cases already : before.expanded.contains name
      · -- The fields of a fragment that was expanded are there.
        rw [if_pos already]
        obtain ⟨nodes, same, known⟩ := follows.expanded name (List.contains_iff_mem.1 already) less
          fragment found
        cases included with
        | false => exact gathers_nothing follows
        | true =>
            rw [if_pos rfl, same]
            exact gathers_again follows known
      · rw [if_neg already, Action.result_bind]
        rw [Scope.takes] at decided
        rw [decided]
        cases included with
        | false => exact gathers_nothing follows
        | true => exact gathers_spread found less (inner name fragment found less) before others follows

theorem gathers_gatherAll (grounded : scope.Grounded answer rank) (le : bound ≤ scope.fragments.length)
    {expand : Expansion}
    (inner : ∀ name fragment, fragment? scope.fragments name = some fragment → rank name < bound →
      Reaches scope answer rank type expand name fragment)
    (selections : List Selection) (expands : scope.Expands answer rank bound selections)
    (before : Gathering) (others : List FieldNode)
    (follows : before.Follows scope answer rank type bound others) :
    before.Gathers scope answer rank type bound others
      (scope.asks answer type (inlined scope.fragments selections))
      ((gatherAll scope type expand selections before).result answer) := by
  match selections with
  | [] =>
      rw [inlined_nil, gatherAll]
      exact gathers_nothing follows
  | selection :: rest =>
      obtain ⟨here, later⟩ := expands.of_cons
      have first := gathers_gather grounded le inner selection here before others follows
      rw [inlined_cons, Scope.asks, askedAll, gatherAll, Action.result_bind]
      apply first.bind
      intro middle nodes following
      exact gathers_gatherAll grounded le inner rest later middle (others ++ nodes) following

end

theorem gathers_gatherWithin (grounded : scope.Grounded answer rank) (levels bound : Nat)
    (enough : bound ≤ levels) (le : bound ≤ scope.fragments.length) (selections : List Selection)
    (expands : scope.Expands answer rank bound selections) (before : Gathering)
    (others : List FieldNode) (follows : before.Follows scope answer rank type bound others) :
    before.Gathers scope answer rank type bound others
      (scope.asks answer type (inlined scope.fragments selections))
      ((gatherWithin scope type levels selections before).result answer) := by
  induction levels generalizing bound selections before others with
  | zero =>
      apply gathers_gatherAll grounded le _ selections expands before others follows
      intro name fragment _ less
      omega
  | succ levels ih =>
      apply gathers_gatherAll grounded le _ selections expands before others follows
      intro name fragment found less before others follows
      exact ih (rank name) (by omega) (by omega) fragment.selections (grounded.expands found) before
        others follows

end Selection

/-- What is collected with and without spreads: the same fields, none of them deeper than a bound. -/
inductive Scope.Collects (scope : Scope) (answer : Call → Reply) (rank : String → Nat) (depth : Nat) :
    Except Failure Collected → Except Failure Collected → Prop where
  | failed (failure : Failure) : Collects scope answer rank depth (.error failure) (.error failure)
  | found {fields others : Collected} :
    scope.Merges answer rank fields others →
    (∀ entry ∈ others, ∀ node ∈ entry.2, node.selection.depth (fun _ => 0) ≤ depth) →
    Collects scope answer rank depth (.ok fields) (.ok others)

namespace Selection

variable {type : TypeId}

mutual

theorem depth_of_asked {takes : List DirectiveNode → Except Failure Bool}
    {fits : Option String → Except Failure Bool} (selection : Selection) (nodes : List FieldNode)
    (found : selection.asked takes fits = .ok nodes) :
    ∀ node ∈ nodes, node.selection.depth (fun _ => 0) ≤ selection.depth fun _ => 0 := by
  match selection with
  | .field start aliasName name arguments directives selections =>
      rw [asked] at found
      cases included : takes directives with
      | error failure =>
          rw [included] at found
          cases found
      | ok included' =>
          rw [included] at found
          cases included' with
          | false =>
              cases found
              intro node member
              cases member
          | true =>
              cases found
              intro node member
              rw [List.mem_singleton.1 member]
              exact Nat.le_refl _
  | .inlineFragment start condition directives selections =>
      rw [asked] at found
      cases included : takes directives with
      | error failure =>
          rw [included] at found
          cases found
      | ok included' =>
          rw [included] at found
          cases included' with
          | false =>
              cases found
              intro node member
              cases member
          | true =>
              cases applies : fits condition with
              | error failure =>
                  rw [applies] at found
                  cases found
              | ok applies' =>
                  rw [applies] at found
                  cases applies' with
                  | false =>
                      cases found
                      intro node member
                      cases member
                  | true =>
                      rw [depth]
                      exact depth_of_askedAll selections nodes found
  | .spread start name directives =>
      rw [asked] at found
      cases found
      intro node member
      cases member

theorem depth_of_askedAll {takes : List DirectiveNode → Except Failure Bool}
    {fits : Option String → Except Failure Bool} (selections : List Selection)
    (nodes : List FieldNode) (found : askedAll takes fits selections = .ok nodes) :
    ∀ node ∈ nodes, node.selection.depth (fun _ => 0) ≤ depthOfAll (fun _ => 0) selections := by
  match selections with
  | [] =>
      cases found
      intro node member
      cases member
  | selection :: rest =>
      rw [askedAll] at found
      cases first : selection.asked takes fits with
      | error failure =>
          rw [first] at found
          cases found
      | ok here =>
          rw [first] at found
          cases second : askedAll takes fits rest with
          | error failure =>
              rw [second] at found
              cases found
          | ok later =>
              rw [second] at found
              cases found
              intro node member
              rw [depthOfAll]
              rcases List.mem_append.1 member with inside | inside
              · have le := depth_of_asked selection here first node inside
                omega
              · have le := depth_of_askedAll rest later second node inside
                omega

end

theorem result_gatherWithin (scope : Scope) (levels : Nat) (selections : List Selection)
    (gathering : Gathering) (free : spreadsOfAll selections = []) :
    (gatherWithin scope type levels selections gathering).result answer
      = (scope.asks answer type selections).map gathering.addAll := by
  cases levels with
  | zero => exact result_gatherAll _ selections gathering free
  | succ levels => exact result_gatherAll _ selections gathering free

end Selection

namespace Scope

variable {type : TypeId}

theorem mem_addAll {nodes : List FieldNode} {key : String} {node : FieldNode}
    (holds : (Collected.addAll [] nodes).Holds key node) : node ∈ nodes := by
  induction nodes using List.reverseRecOn with
  | nil =>
      obtain ⟨_, member, _⟩ := holds
      cases member
  | append_singleton before last ih =>
      rw [Collected.addAll, List.foldl_append] at holds
      obtain earlier | ⟨rfl, _⟩ := Collected.holds_add _ _ key node holds
      · exact List.mem_append_left _ (ih earlier)
      · exact List.mem_append_right _ List.mem_cons_self

theorem collects_of_gathers {asked : Except Failure (List FieldNode)} {depth : Nat}
    {made : Except Failure Gathering}
    (gathers : Gathering.empty.Gathers scope answer rank type bound [] asked made)
    (shallow : ∀ nodes, asked = .ok nodes → ∀ node ∈ nodes,
      node.selection.depth (fun _ => 0) ≤ depth) :
    scope.Collects answer rank depth (made.map (·.fields)) (asked.map (Collected.addAll [])) := by
  cases asked with
  | error failure =>
      have failed : made = .error failure := gathers
      rw [failed]
      exact .failed failure
  | ok others =>
      obtain ⟨after, rfl, follows, _⟩ := gathers
      obtain ⟨nodes, same, repeats⟩ := follows.fields
      have merges := repeats.merges
      rw [← same] at merges
      refine .found merges ?_
      intro entry member node inside
      exact shallow others rfl node (mem_addAll ⟨entry.2, member, inside⟩)

theorem follows_empty (scope : Scope) (answer : Call → Reply) (rank : String → Nat) (type : TypeId)
    (bound : Nat) : Gathering.empty.Follows scope answer rank type bound [] := by
  refine ⟨⟨[], rfl, .nil⟩, ?_⟩
  intro name member
  cases member

theorem Expands.free (ranked : Fragment.Ranked scope.fragments rank) {selections : List Selection}
    (expands : scope.Expands answer rank scope.fragments.length selections) :
    Selection.spreadsOfAll (Selection.inlined scope.fragments selections) = [] :=
  Selection.spreadsOfAll_inlineWithin ranked _ selections expands.below

theorem result_collect (scope : Scope) (selections : List Selection) :
    (scope.collect type selections).result answer
      = ((scope.gather type selections .empty).result answer).map (·.fields) := by
  rw [collect, Action.result_bind]
  cases (scope.gather type selections .empty).result answer <;> rfl

theorem result_collectNodes (scope : Scope) (nodes : List FieldNode) :
    (scope.collectNodes type nodes).result answer
      = ((scope.gatherNodes type nodes .empty).result answer).map (·.fields) := by
  rw [collectNodes, Action.result_bind]
  cases (scope.gatherNodes type nodes .empty).result answer <;> rfl

theorem fields_addAll (asked : Except Failure (List FieldNode)) :
    (asked.map Gathering.empty.addAll).map (·.fields) = asked.map (Collected.addAll []) := by
  cases asked <;> rfl

/-- What selections ask for is collected alike with and without spreads. -/
theorem collects_collect (grounded : scope.Grounded answer rank) (fragments : List Fragment)
    (selections : List Selection)
    (expands : scope.Expands answer rank scope.fragments.length selections) :
    scope.Collects answer rank
      (Selection.depthOfAll (fun _ => 0) (Selection.inlined scope.fragments selections))
      ((scope.collect type selections).result answer)
      (({ scope with fragments }.collect type (Selection.inlined scope.fragments selections)).result
        answer) := by
  have gathers := Selection.gathers_gatherWithin grounded scope.fragments.length scope.fragments.length
    (Nat.le_refl _) (Nat.le_refl _) selections expands .empty [] (follows_empty _ _ _ type _)
  have other : (({ scope with fragments } : Scope).gather type
        (Selection.inlined scope.fragments selections) .empty).result answer
      = (scope.asks answer type (Selection.inlined scope.fragments selections)).map
        Gathering.empty.addAll :=
    Selection.result_gatherWithin { scope with fragments } fragments.length
      (Selection.inlined scope.fragments selections) .empty (expands.free grounded.ranked)
  rw [result_collect, result_collect, other, fields_addAll]
  exact collects_of_gathers gathers fun nodes found => Selection.depth_of_askedAll _ nodes found

theorem asks_append (scope : Scope) (answer : Call → Reply) (selections more : List Selection) :
    scope.asks answer type (selections ++ more) = do
      return (← scope.asks answer type selections) ++ (← scope.asks answer type more) := by
  induction selections with
  | nil =>
      show _ = (scope.asks answer type more).map fun found => [] ++ found
      cases found : scope.asks answer type more with
      | error failure => exact found
      | ok nodes => exact found
  | cons selection rest ih =>
      simp only [asks, List.cons_append, Selection.askedAll] at ih ⊢
      rw [ih]
      cases selection.asked (scope.takes answer) (scope.fits type) with
      | error failure => rfl
      | ok here =>
          cases Selection.askedAll (scope.takes answer) (scope.fits type) rest with
          | error failure => rfl
          | ok later =>
              cases Selection.askedAll (scope.takes answer) (scope.fits type) more with
              | error failure => rfl
              | ok last => exact congrArg Except.ok (List.append_assoc here later last).symm

theorem asks_of_mem {node : FieldNode} (member : node ∈ others) {found : List FieldNode}
    (asked : scope.asks answer type (others.flatMap (·.selections)) = .ok found) :
    ∃ own, scope.asks answer type node.selections = .ok own ∧ own ⊆ found := by
  induction others generalizing found with
  | nil => cases member
  | cons first rest ih =>
      rw [List.flatMap_cons, asks_append] at asked
      cases here : scope.asks answer type first.selections with
      | error failure =>
          rw [here] at asked
          cases asked
      | ok own =>
          cases there : scope.asks answer type (rest.flatMap (·.selections)) with
          | error failure =>
              rw [here, there] at asked
              cases asked
          | ok more =>
              rw [here, there] at asked
              cases asked
              rcases List.mem_cons.1 member with rfl | later
              · exact ⟨own, here, List.subset_append_left _ _⟩
              · obtain ⟨inner, same, inside⟩ := ih later there
                exact ⟨inner, same, List.Subset.trans inside (List.subset_append_right _ _)⟩

theorem result_gatherNodes_free (scope : Scope) (nodes : List FieldNode) (gathering : Gathering)
    (free : ∀ node ∈ nodes, Selection.spreadsOfAll node.selections = []) :
    (scope.gatherNodes type nodes gathering).result answer
      = (scope.asks answer type (nodes.flatMap (·.selections))).map gathering.addAll := by
  induction nodes generalizing gathering with
  | nil => rfl
  | cons node rest ih =>
      have first : (scope.gather type node.selections gathering).result answer
          = (scope.asks answer type node.selections).map gathering.addAll :=
        Selection.result_gatherWithin scope scope.fragments.length node.selections gathering
          (free node List.mem_cons_self)
      have later := fun after => ih after fun other member => free other (List.mem_cons_of_mem _ member)
      rw [gatherNodes, Action.result_bind, List.flatMap_cons, asks_append]
      refine (congrArg (· >>= _) first).trans ?_
      simp only [later]
      cases scope.asks answer type node.selections with
      | error failure => rfl
      | ok here =>
          cases scope.asks answer type (rest.flatMap (·.selections)) with
          | error failure => rfl
          | ok more => exact congrArg Except.ok (Gathering.addAll_append gathering here more).symm

theorem result_gatherNodes_append (scope : Scope) (nodes : List FieldNode) (node : FieldNode)
    (gathering : Gathering) :
    (scope.gatherNodes type (nodes ++ [node]) gathering).result answer
      = (scope.gatherNodes type nodes gathering).result answer >>= fun after =>
        (scope.gather type node.selections after).result answer := by
  induction nodes generalizing gathering with
  | nil =>
      show (scope.gather type node.selections gathering >>= pure).result answer
        = (scope.gather type node.selections gathering).result answer
      rw [Action.result_bind]
      cases (scope.gather type node.selections gathering).result answer <;> rfl
  | cons first rest ih =>
      rw [List.cons_append, gatherNodes, Action.result_bind, gatherNodes, Action.result_bind]
      cases (scope.gather type first.selections gathering).result answer with
      | error failure => rfl
      | ok after => exact ih after

theorem gathers_gatherNodes (grounded : scope.Grounded answer rank)
    (repeats : scope.Repeats answer rank nodes others) :
    Gathering.empty.Gathers scope answer rank type scope.fragments.length []
      (scope.asks answer type (others.flatMap (·.selections)))
      ((scope.gatherNodes type nodes .empty).result answer) := by
  induction repeats with
  | nil => exact Gathering.gathers_nothing (follows_empty scope answer rank type _)
  | @both nodes others node _ expands ih =>
      rw [List.flatMap_append, List.flatMap_singleton, asks_append, result_gatherNodes_append]
      apply ih.bind
      intro middle found follows
      exact Selection.gathers_gatherWithin grounded _ _ (Nat.le_refl _) (Nat.le_refl _) node.selections
        expands middle _ follows
  | @again nodes others node _ member ih =>
      rw [List.flatMap_append, List.flatMap_singleton, asks_append]
      cases asked : scope.asks answer type (others.flatMap (·.selections)) with
      | error failure =>
          rw [asked] at ih
          exact ih
      | ok found =>
          rw [asked] at ih
          obtain ⟨after, made, follows, grown⟩ := ih
          obtain ⟨own, same, inside⟩ := asks_of_mem member asked
          rw [same, made]
          exact ⟨after, rfl, follows.more inside, grown⟩

theorem depthOfAll_append (depthOf : String → Nat) (selections more : List Selection) :
    Selection.depthOfAll depthOf (selections ++ more)
      = max (Selection.depthOfAll depthOf selections) (Selection.depthOfAll depthOf more) := by
  induction selections with
  | nil => exact (Nat.zero_max _).symm
  | cons selection rest ih =>
      simp only [List.cons_append, Selection.depthOfAll, ih, Nat.max_assoc]

theorem depthOfAll_flatMap {depth : Nat}
    (shallow : ∀ node ∈ others, Selection.depthOfAll (fun _ => 0) node.selections ≤ depth) :
    Selection.depthOfAll (fun _ => 0) (others.flatMap (·.selections)) ≤ depth := by
  induction others with
  | nil => exact Nat.zero_le _
  | cons node rest ih =>
      have here := shallow node List.mem_cons_self
      have later := ih fun other member => shallow other (List.mem_cons_of_mem _ member)
      rw [List.flatMap_cons, depthOfAll_append]
      omega

theorem collects_collectNodes (grounded : scope.Grounded answer rank) (fragments : List Fragment)
    (repeats : scope.Repeats answer rank nodes others) {depth : Nat}
    (shallow : ∀ node ∈ others, Selection.depthOfAll (fun _ => 0) node.selections ≤ depth) :
    scope.Collects answer rank depth ((scope.collectNodes type nodes).result answer)
      (({ scope with fragments }.collectNodes type others).result answer) := by
  have free : ∀ node ∈ others, Selection.spreadsOfAll node.selections = [] := by
    intro node member
    obtain ⟨origin, expands, rfl⟩ := repeats.exists_origin member
    exact expands.free grounded.ranked
  have other : (({ scope with fragments } : Scope).gatherNodes type others .empty).result answer
      = (scope.asks answer type (others.flatMap (·.selections))).map Gathering.empty.addAll :=
    result_gatherNodes_free { scope with fragments } others .empty free
  rw [result_collectNodes, result_collectNodes, other, fields_addAll]
  apply collects_of_gathers (gathers_gatherNodes grounded repeats)
  intro nodes found node member
  exact Nat.le_trans (Selection.depth_of_askedAll _ nodes found node member) (depthOfAll_flatMap shallow)

end Scope

end

end GraphQL
