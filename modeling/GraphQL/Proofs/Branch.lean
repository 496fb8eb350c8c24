import GraphQL.Proofs.Located
import GraphQL.Cost
import Mathlib.Data.List.Perm.Subperm

/-!
Branches of a document: fields nested in fields, reached through inline fragments and spreads. A
branch that expands no fragment within itself is at most as long as the depth of its selections.
-/

namespace GraphQL

def FieldNode.selection (node : FieldNode) : Selection :=
  .field node.start node.aliasName node.name node.arguments node.directives node.selections

/-- A branch of selections: the fragments that it expands, the response keys on it, and the field
that it ends with. -/
inductive Branch (fragments : List Fragment) :
    List Selection → List String → List String → FieldNode → Prop where
  | field {selections : List Selection} (node : FieldNode) :
    node.selection ∈ selections → Branch fragments selections [] [node.responseKey] node
  | nested {selections : List Selection} (outer : FieldNode) {spreads keys : List String}
      {node : FieldNode} :
    outer.selection ∈ selections → Branch fragments outer.selections spreads keys node →
    Branch fragments selections spreads (outer.responseKey :: keys) node
  | inline {selections inner : List Selection} {start : Nat} {condition : Option String}
      {directives : List DirectiveNode} {spreads keys : List String} {node : FieldNode} :
    .inlineFragment start condition directives inner ∈ selections →
    Branch fragments inner spreads keys node → Branch fragments selections spreads keys node
  | spread {selections : List Selection} {start : Nat} {name : String}
      {directives : List DirectiveNode} {fragment : Fragment} {spreads keys : List String}
      {node : FieldNode} :
    .spread start name directives ∈ selections → fragment? fragments name = some fragment →
    Branch fragments fragment.selections spreads keys node →
    Branch fragments selections (name :: spreads) keys node

/-- A branch on which the directives of every node let it take part. -/
inductive Taken (fragments : List Fragment) (included : List DirectiveNode → Prop) :
    List Selection → List String → List String → FieldNode → Prop where
  | field {selections : List Selection} (node : FieldNode) :
    node.selection ∈ selections → included node.directives →
    Taken fragments included selections [] [node.responseKey] node
  | nested {selections : List Selection} (outer : FieldNode) {spreads keys : List String}
      {node : FieldNode} :
    outer.selection ∈ selections → included outer.directives →
    Taken fragments included outer.selections spreads keys node →
    Taken fragments included selections spreads (outer.responseKey :: keys) node
  | inline {selections inner : List Selection} {start : Nat} {condition : Option String}
      {directives : List DirectiveNode} {spreads keys : List String} {node : FieldNode} :
    .inlineFragment start condition directives inner ∈ selections → included directives →
    Taken fragments included inner spreads keys node →
    Taken fragments included selections spreads keys node
  | spread {selections : List Selection} {start : Nat} {name : String}
      {directives : List DirectiveNode} {fragment : Fragment} {spreads keys : List String}
      {node : FieldNode} :
    .spread start name directives ∈ selections → included directives →
    fragment? fragments name = some fragment →
    Taken fragments included fragment.selections spreads keys node →
    Taken fragments included selections (name :: spreads) keys node

namespace Taken

variable {fragments : List Fragment} {included : List DirectiveNode → Prop}
  {selections : List Selection} {spreads keys : List String} {node : FieldNode}

theorem branch (taken : Taken fragments included selections spreads keys node) :
    Branch fragments selections spreads keys node := by
  induction taken with
  | field node member _ => exact .field node member
  | nested outer member _ _ ih => exact .nested outer member ih
  | inline member _ _ ih => exact .inline member ih
  | spread member _ found _ ih => exact .spread member found ih

theorem append {spreads' keys' : List String} {outer : FieldNode}
    (taken : Taken fragments included selections spreads keys outer)
    (below : Taken fragments included outer.selections spreads' keys' node) :
    Taken fragments included selections (spreads ++ spreads') (keys ++ keys') node := by
  induction taken with
  | field outer member part => exact .nested outer member part below
  | nested first member part _ ih => exact .nested first member part (ih below)
  | inline member part _ ih => exact .inline member part (ih below)
  | spread member part found _ ih => exact .spread member part found (ih below)

theorem weaken {more : List Selection}
    (taken : Taken fragments included selections spreads keys node) (inside : selections ⊆ more) :
    Taken fragments included more spreads keys node := by
  cases taken with
  | field node member part => exact .field node (inside member) part
  | nested outer member part below => exact .nested outer (inside member) part below
  | inline member part below => exact .inline (inside member) part below
  | spread member part found below => exact .spread (inside member) part found below

end Taken

namespace Selection

theorem depth_le_depthOfAll (spreadDepth : String → Nat) (selections : List Selection)
    (selection : Selection) (member : selection ∈ selections) :
    depth spreadDepth selection ≤ depthOfAll spreadDepth selections := by
  induction selections with
  | nil => cases member
  | cons first rest ih =>
      rw [depthOfAll]
      rcases List.mem_cons.1 member with rfl | later
      · omega
      · have below := ih later
        omega

/-- The depth that a spread adds. -/
def spreadDepth (fragments : List Fragment) : (levels : Nat) → List String → String → Nat
  | 0, _, _ => 0
  | levels + 1, within, name =>
    match fragment? fragments name with
    | some fragment =>
      if within.contains name then 0
      else depthWithin fragments levels (name :: within) fragment.selections
    | none => 0

theorem depthWithin_eq (fragments : List Fragment) (levels : Nat) (within : List String)
    (selections : List Selection) :
    depthWithin fragments levels within selections
      = depthOfAll (spreadDepth fragments levels within) selections := by
  cases levels with
  | zero => rfl
  | succ levels => rfl

/-- A branch that expands every fragment at most once, and none that it stands in, is at most as long
as the selections are deep. -/
theorem length_le_depthWithin {fragments : List Fragment} {selections : List Selection}
    {spreads keys : List String} {node : FieldNode}
    (branch : Branch fragments selections spreads keys node) (levels : Nat) (within : List String)
    (distinct : spreads.Nodup) (outside : ∀ name ∈ spreads, name ∉ within)
    (bound : spreads.length ≤ levels) :
    keys.length ≤ depthWithin fragments levels within selections := by
  induction branch generalizing levels within with
  | field node member =>
      have step := depth_le_depthOfAll (spreadDepth fragments levels within) _ _ member
      rw [FieldNode.selection, depth] at step
      rw [depthWithin_eq, List.length_singleton]
      omega
  | nested outer member _ ih =>
      have below := ih levels within distinct outside bound
      have step := depth_le_depthOfAll (spreadDepth fragments levels within) _ _ member
      rw [FieldNode.selection, depth, ← depthWithin_eq, ← depthWithin_eq] at step
      rw [List.length_cons]
      omega
  | inline member _ ih =>
      have below := ih levels within distinct outside bound
      have step := depth_le_depthOfAll (spreadDepth fragments levels within) _ _ member
      rw [depth, ← depthWithin_eq, ← depthWithin_eq] at step
      omega
  | @spread selections _ name _ fragment spreads _ _ member found _ ih =>
      rw [List.length_cons] at bound
      rw [List.nodup_cons] at distinct
      -- a name that is expanded here is not expanded again further down, so a level less is enough
      cases levels with
      | zero => omega
      | succ levels =>
          have fresh : name ∉ within := outside name List.mem_cons_self
          have below := ih levels (name :: within) distinct.2 (by
            intro other inside again
            rcases List.mem_cons.1 again with rfl | before
            · exact distinct.1 inside
            · exact outside other (List.mem_cons_of_mem _ inside) before) (by omega)
          have step := depth_le_depthOfAll (spreadDepth fragments (levels + 1) within) _ _ member
          have added : spreadDepth fragments (levels + 1) within name
              = depthWithin fragments levels (name :: within) fragment.selections := by
            simp only [spreadDepth, found, List.contains_iff_mem, fresh, if_false]
          rw [depth, added, ← depthWithin_eq] at step
          omega

end Selection

theorem Branch.spreads_subset {fragments : List Fragment} {selections : List Selection}
    {spreads keys : List String} {node : FieldNode}
    (branch : Branch fragments selections spreads keys node) :
    spreads ⊆ fragments.map (·.name) := by
  induction branch with
  | field node member => exact List.nil_subset _
  | nested outer member _ ih => exact ih
  | inline member _ ih => exact ih
  | spread member found _ ih =>
      refine List.cons_subset.2 ⟨?_, ih⟩
      have same := List.find?_some found
      rw [beq_iff_eq] at same
      exact List.mem_map.2 ⟨_, List.mem_of_find?_eq_some found, same⟩

/-- A branch of an operation that expands no fragment within itself keeps within the depth of the
operation. -/
theorem Operation.length_le_depth {fragments : List Fragment} (operation : Operation)
    {spreads keys : List String} {node : FieldNode}
    (branch : Branch fragments operation.selections spreads keys node)
    (distinct : spreads.Nodup) : keys.length ≤ operation.depth fragments := by
  have few := (List.subperm_of_subset distinct branch.spreads_subset).length_le
  rw [List.length_map] at few
  exact Selection.length_le_depthWithin branch _ [] distinct (fun _ _ => List.not_mem_nil) few

namespace Collected

/-- Whether a node is collected under a key. -/
def Holds (collected : Collected) (key : String) (node : FieldNode) : Prop :=
  ∃ nodes, (key, nodes) ∈ collected ∧ node ∈ nodes

theorem holds_add (collected : Collected) (added : FieldNode) (key : String) (node : FieldNode)
    (holds : (collected.add added).Holds key node) :
    collected.Holds key node ∨ (node = added ∧ key = added.responseKey) := by
  induction collected with
  | nil =>
      rcases holds with ⟨nodes, member, inside⟩
      simp only [add, List.mem_singleton, Prod.mk.injEq] at member
      rcases member with ⟨rfl, rfl⟩
      exact .inr ⟨List.mem_singleton.1 inside, rfl⟩
  | cons entry rest ih =>
      obtain ⟨first, nodes⟩ := entry
      rcases holds with ⟨found, member, inside⟩
      rw [add] at member
      split at member
      · next same =>
          rcases List.mem_cons.1 member with here | later
          · cases here
            rcases List.mem_append.1 inside with before | new
            · exact .inl ⟨nodes, List.mem_cons_self, before⟩
            · exact .inr ⟨List.mem_singleton.1 new, same⟩
          · exact .inl ⟨found, List.mem_cons_of_mem _ later, inside⟩
      · rcases List.mem_cons.1 member with here | later
        · cases here
          exact .inl ⟨nodes, List.mem_cons_self, inside⟩
        · rcases ih ⟨found, later, inside⟩ with ⟨nodes, before, inside⟩ | new
          · exact .inl ⟨nodes, List.mem_cons_of_mem _ before, inside⟩
          · exact .inr new

end Collected

/-- Whether directives let a node take part, by what was answered. -/
def Scope.Includes (scope : Scope) (account : Account) (directives : List DirectiveNode) : Prop :=
  (scope.isIncluded directives).Yields account (.ok true)

/-- Whether a field takes part on the first level of selections. -/
def Scope.Reached (scope : Scope) (account : Account) (selections : List Selection) (key : String)
    (node : FieldNode) : Prop :=
  ∃ spreads, Taken scope.fragments (scope.Includes account) selections spreads [key] node

/-- What a gathering holds was there before or is reached from selections. -/
def Gathering.GrowsBy (scope : Scope) (account : Account) (selections : List Selection)
    (before after : Gathering) : Prop :=
  ∀ key node, after.fields.Holds key node →
    before.fields.Holds key node ∨ scope.Reached account selections key node

theorem Gathering.growsBy_refl (scope : Scope) (account : Account) (selections : List Selection)
    (gathering : Gathering) : gathering.GrowsBy scope account selections gathering :=
  fun _ _ holds => .inl holds

namespace Selection

variable {account : Account} {scope : Scope} {type : TypeId} {expand : Expansion}

theorem grows_gatherSpread
    (expands : ∀ selections before after, (expand selections before).Yields account (.ok after) →
      before.GrowsBy scope account selections after)
    (start : Nat) (name : String) (directives : List DirectiveNode)
    (part : scope.Includes account directives) (before after : Gathering)
    (yields : (gatherSpread scope type expand name before).Yields account (.ok after)) :
    before.GrowsBy scope account [.spread start name directives] after := by
  unfold gatherSpread at yields
  simp only at yields
  split at yields
  · cases Action.yields_pure _ _ yields
    exact fun _ _ holds => .inl holds
  · next fragment found =>
      rcases Action.yields_bind _ _ _ yields with ⟨applies, _, yields⟩
      split at yields
      · intro key node holds
        rcases expands _ _ _ yields key node holds with kept | ⟨spreads, taken⟩
        · exact .inl kept
        · exact .inr ⟨name :: spreads, .spread List.mem_cons_self part found taken⟩
      · cases Action.yields_pure _ _ yields
        exact fun _ _ holds => .inl holds

mutual

theorem grows_gather
    (expands : ∀ selections before after, (expand selections before).Yields account (.ok after) →
      before.GrowsBy scope account selections after)
    (selection : Selection) (before after : Gathering)
    (yields : (gather scope type expand selection before).Yields account (.ok after)) :
    before.GrowsBy scope account [selection] after := by
  match selection with
  | field start alias_ name arguments directives selections =>
      simp only [gather] at yields
      rcases Action.yields_bind _ _ _ yields with ⟨included, part, yields⟩
      split at yields
      · next same =>
          rw [same] at part
          cases Action.yields_pure _ _ yields
          intro key node holds
          rcases Collected.holds_add _ _ key node holds with kept | ⟨rfl, rfl⟩
          · exact .inl kept
          · exact .inr ⟨[], .field _ List.mem_cons_self part⟩
      · cases Action.yields_pure _ _ yields
        exact Gathering.growsBy_refl _ _ _ _
  | inlineFragment start condition directives selections =>
      simp only [gather] at yields
      rcases Action.yields_bind _ _ _ yields with ⟨included, part, yields⟩
      split at yields
      · next same =>
          rw [same] at part
          rcases Action.yields_bind _ _ _ yields with ⟨applies, _, yields⟩
          split at yields
          · intro key node holds
            rcases grows_gatherAll expands selections before after yields key node holds with
              kept | ⟨spreads, taken⟩
            · exact .inl kept
            · exact .inr ⟨spreads, .inline List.mem_cons_self part taken⟩
          · cases Action.yields_pure _ _ yields
            exact Gathering.growsBy_refl _ _ _ _
      · cases Action.yields_pure _ _ yields
        exact Gathering.growsBy_refl _ _ _ _
  | spread start name directives =>
      simp only [gather] at yields
      split at yields
      · cases Action.yields_pure _ _ yields
        exact Gathering.growsBy_refl _ _ _ _
      · rcases Action.yields_bind _ _ _ yields with ⟨included, part, yields⟩
        split at yields
        · next same =>
            rw [same] at part
            exact grows_gatherSpread expands start name directives part before after yields
        · cases Action.yields_pure _ _ yields
          exact Gathering.growsBy_refl _ _ _ _

theorem grows_gatherAll
    (expands : ∀ selections before after, (expand selections before).Yields account (.ok after) →
      before.GrowsBy scope account selections after)
    (selections : List Selection) (before after : Gathering)
    (yields : (gatherAll scope type expand selections before).Yields account (.ok after)) :
    before.GrowsBy scope account selections after := by
  match selections with
  | [] =>
      cases Action.yields_pure _ _ yields
      exact Gathering.growsBy_refl _ _ _ _
  | selection :: rest =>
      simp only [gatherAll] at yields
      rcases Action.yields_bind _ _ _ yields with ⟨middle, first, second⟩
      intro key node holds
      rcases grows_gatherAll expands rest middle after second key node holds with
        kept | ⟨spreads, taken⟩
      · rcases grows_gather expands selection before middle first key node kept with
          earlier | ⟨spreads, taken⟩
        · exact .inl earlier
        · exact .inr ⟨spreads, taken.weaken (List.cons_subset.2
            ⟨List.mem_cons_self, List.nil_subset _⟩)⟩
      · exact .inr ⟨spreads, taken.weaken (List.subset_cons_self _ _)⟩

end

theorem grows_gatherWithin (levels : Nat) (selections : List Selection) (before after : Gathering)
    (yields : (gatherWithin scope type levels selections before).Yields account (.ok after)) :
    before.GrowsBy scope account selections after := by
  induction levels generalizing selections before after with
  | zero =>
      refine grows_gatherAll (fun selections before after yields => ?_) selections before after yields
      cases Action.yields_pure _ _ yields
      exact Gathering.growsBy_refl _ _ _ _
  | succ levels ih => exact grows_gatherAll ih selections before after yields

end Selection

namespace Scope

variable {account : Account} {type : TypeId}

theorem reached_of_collect (scope : Scope) (selections : List Selection) (fields : Collected)
    (yields : (scope.collect type selections).Yields account (.ok fields)) (key : String)
    (node : FieldNode) (holds : fields.Holds key node) :
    scope.Reached account selections key node := by
  rcases Action.yields_bind _ _ _ yields with ⟨gathering, first, second⟩
  cases Action.yields_pure _ _ second
  rcases Selection.grows_gatherWithin _ _ _ _ first key node holds with ⟨_, member, _⟩ | reached
  · cases member
  · exact reached

theorem grows_gatherNodes (scope : Scope) (nodes : List FieldNode) (before after : Gathering)
    (yields : (scope.gatherNodes type nodes before).Yields account (.ok after)) (key : String)
    (node : FieldNode) (holds : after.fields.Holds key node) :
    before.fields.Holds key node
      ∨ ∃ outer ∈ nodes, scope.Reached account outer.selections key node := by
  induction nodes generalizing before with
  | nil =>
      cases Action.yields_pure _ _ yields
      exact .inl holds
  | cons outer rest ih =>
      rcases Action.yields_bind _ _ _ yields with ⟨middle, first, second⟩
      rcases ih middle second with kept | ⟨other, member, reached⟩
      · rcases Selection.grows_gatherWithin _ _ _ _ first key node kept with earlier | reached
        · exact .inl earlier
        · exact .inr ⟨outer, List.mem_cons_self, reached⟩
      · exact .inr ⟨other, List.mem_cons_of_mem _ member, reached⟩

theorem reached_of_collectNodes (scope : Scope) (nodes : List FieldNode) (fields : Collected)
    (yields : (scope.collectNodes type nodes).Yields account (.ok fields)) (key : String)
    (node : FieldNode) (holds : fields.Holds key node) :
    ∃ outer ∈ nodes, scope.Reached account outer.selections key node := by
  rcases Action.yields_bind _ _ _ yields with ⟨gathering, first, second⟩
  cases Action.yields_pure _ _ second
  rcases scope.grows_gatherNodes nodes _ _ first key node holds with ⟨_, member, _⟩ | reached
  · cases member
  · exact reached

end Scope

namespace ResponsePath

theorem names_index (path : ResponsePath) (index : Int) :
    (path.extend (.index index)).names = path.names := by
  simp only [names, toList, List.filterMap_append]
  exact List.append_nil _

theorem names_name (path : ResponsePath) (key : String) :
    (path.extend (.name key)).names = path.names ++ [key] := by
  simp only [names, toList, List.filterMap_append]
  rfl

end ResponsePath

/-- The nodes at a position end branches of the operation that lead along the path. -/
theorem taken_of_located {setting : Setting} {account : Account} {root : TypeId}
    {path : ResponsePath} {nodes : List FieldNode}
    (located : Located setting account root path nodes) (node : FieldNode) (member : node ∈ nodes) :
    ∃ spreads, Taken setting.environment.fragments (setting.scope.Includes account)
      setting.environment.operation.selections spreads path.names node := by
  induction located generalizing node with
  | field yields inside _ =>
      exact Scope.reached_of_collect _ _ _ yields _ node ⟨_, inside, member⟩
  | item index _ ih =>
      rw [ResponsePath.names_index]
      exact ih node member
  | subfield _ yields inside _ ih =>
      rcases Scope.reached_of_collectNodes _ _ _ yields _ node ⟨_, inside, member⟩ with
        ⟨outer, found, spreads', below⟩
      rcases ih outer found with ⟨spreads, taken⟩
      rw [ResponsePath.names_name]
      exact ⟨spreads ++ spreads', taken.append below⟩

end GraphQL
