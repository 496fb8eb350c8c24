import GraphQL.Proofs.Account
import GraphQL.Selection
import Mathlib.Data.List.Nodup

/-!
Response keys. However the selections of an object are spread over fragments and nodes, each response
key is collected once, with all of its nodes. Collecting keeps whatever adding one node keeps.
-/

namespace GraphQL

namespace Collected

def Distinct (collected : Collected) : Prop := (collected.map (·.1)).Nodup

theorem mem_keys_add (collected : Collected) (node : FieldNode) (key : String)
    (member : key ∈ (collected.add node).map (·.1)) :
    key ∈ collected.map (·.1) ∨ key = node.responseKey := by
  induction collected with
  | nil =>
      rw [add, List.map_singleton, List.mem_singleton] at member
      exact .inr member
  | cons entry rest ih =>
      obtain ⟨first, nodes⟩ := entry
      rw [add] at member
      split at member
      · exact .inl member
      · rcases List.mem_cons.1 member with rfl | later
        · exact .inl List.mem_cons_self
        · exact (ih later).imp_left (List.mem_cons_of_mem _)

theorem distinct_add (collected : Collected) (node : FieldNode) (distinct : collected.Distinct) :
    (collected.add node).Distinct := by
  induction collected with
  | nil => exact List.nodup_singleton _
  | cons entry rest ih =>
      obtain ⟨first, nodes⟩ := entry
      have parts := List.nodup_cons.1 distinct
      rw [add]
      split
      · exact distinct
      · next differs =>
          refine List.nodup_cons.2 ⟨fun member => ?_, ih parts.2⟩
          rcases mem_keys_add rest node first member with before | same
          · exact parts.1 before
          · exact differs same

/-- Every key has a node. -/
def Grouped (collected : Collected) : Prop := ∀ entry ∈ collected, entry.2 ≠ []

theorem grouped_add (collected : Collected) (node : FieldNode) (grouped : collected.Grouped) :
    (collected.add node).Grouped := by
  induction collected with
  | nil =>
      intro entry member
      rw [List.mem_singleton.1 member]
      exact List.cons_ne_nil _ _
  | cons first rest ih =>
      have parts := List.forall_mem_cons.1 grouped
      rw [add]
      split
      · refine List.forall_mem_cons.2 ⟨?_, parts.2⟩
        exact List.append_ne_nil_of_right_ne_nil _ (List.cons_ne_nil _ _)
      · exact List.forall_mem_cons.2 ⟨parts.1, ih parts.2⟩

/-- Adding a node keeps a property of collected fields. -/
def KeptByAdd (keeps : Collected → Prop) : Prop :=
  ∀ collected node, keeps collected → keeps (add collected node)

end Collected

section

variable {account : Account} {scope : Scope} {type : TypeId} {expand : Expansion}
  {keeps : Collected → Prop}

namespace Selection

theorem keeps_gatherSpread
    (expands : ∀ selections before after, (expand selections before).Yields account (.ok after) →
      keeps before.fields → keeps after.fields)
    (name : String) (before after : Gathering)
    (yields : (gatherSpread scope type expand name before).Yields account (.ok after))
    (kept : keeps before.fields) : keeps after.fields := by
  unfold gatherSpread at yields
  simp only at yields
  split at yields
  · cases Action.yields_pure _ _ yields
    exact kept
  · rcases Action.yields_bind _ _ _ yields with ⟨applies, _, yields⟩
    split at yields
    · exact expands _ _ _ yields kept
    · cases Action.yields_pure _ _ yields
      exact kept

mutual

theorem keeps_gather (adds : Collected.KeptByAdd keeps)
    (expands : ∀ selections before after, (expand selections before).Yields account (.ok after) →
      keeps before.fields → keeps after.fields)
    (selection : Selection) (before after : Gathering)
    (yields : (gather scope type expand selection before).Yields account (.ok after))
    (kept : keeps before.fields) : keeps after.fields := by
  match selection with
  | field start alias_ name arguments directives selections =>
      simp only [gather] at yields
      rcases Action.yields_bind _ _ _ yields with ⟨included, _, yields⟩
      split at yields
      · cases Action.yields_pure _ _ yields
        exact adds _ _ kept
      · cases Action.yields_pure _ _ yields
        exact kept
  | inlineFragment start condition directives selections =>
      simp only [gather] at yields
      rcases Action.yields_bind _ _ _ yields with ⟨included, _, yields⟩
      split at yields
      · rcases Action.yields_bind _ _ _ yields with ⟨applies, _, yields⟩
        split at yields
        · exact keeps_gatherAll adds expands selections before after yields kept
        · cases Action.yields_pure _ _ yields
          exact kept
      · cases Action.yields_pure _ _ yields
        exact kept
  | spread start name directives =>
      simp only [gather] at yields
      split at yields
      · cases Action.yields_pure _ _ yields
        exact kept
      · rcases Action.yields_bind _ _ _ yields with ⟨included, _, yields⟩
        split at yields
        · exact keeps_gatherSpread expands name before after yields kept
        · cases Action.yields_pure _ _ yields
          exact kept

theorem keeps_gatherAll (adds : Collected.KeptByAdd keeps)
    (expands : ∀ selections before after, (expand selections before).Yields account (.ok after) →
      keeps before.fields → keeps after.fields)
    (selections : List Selection) (before after : Gathering)
    (yields : (gatherAll scope type expand selections before).Yields account (.ok after))
    (kept : keeps before.fields) : keeps after.fields := by
  match selections with
  | [] =>
      cases Action.yields_pure _ _ yields
      exact kept
  | selection :: rest =>
      simp only [gatherAll] at yields
      rcases Action.yields_bind _ _ _ yields with ⟨middle, first, second⟩
      have between := keeps_gather adds expands selection before middle first kept
      exact keeps_gatherAll adds expands rest middle after second between

end

theorem keeps_gatherWithin (adds : Collected.KeptByAdd keeps) (levels : Nat)
    (selections : List Selection) (before after : Gathering)
    (yields : (gatherWithin scope type levels selections before).Yields account (.ok after))
    (kept : keeps before.fields) : keeps after.fields := by
  induction levels generalizing selections before after with
  | zero =>
      refine keeps_gatherAll adds (fun selections before after yields kept => ?_) selections before
        after yields kept
      cases Action.yields_pure _ _ yields
      exact kept
  | succ levels ih => exact keeps_gatherAll adds ih selections before after yields kept

end Selection

namespace Scope

theorem keeps_collect (adds : Collected.KeptByAdd keeps) (empty : keeps [])
    (selections : List Selection) (fields : Collected)
    (yields : (scope.collect type selections).Yields account (.ok fields)) : keeps fields := by
  rcases Action.yields_bind _ _ _ yields with ⟨gathering, first, second⟩
  cases Action.yields_pure _ _ second
  exact Selection.keeps_gatherWithin adds _ _ _ _ first empty

theorem keeps_gatherNodes (adds : Collected.KeptByAdd keeps) (nodes : List FieldNode)
    (before after : Gathering)
    (yields : (scope.gatherNodes type nodes before).Yields account (.ok after))
    (kept : keeps before.fields) : keeps after.fields := by
  induction nodes generalizing before with
  | nil =>
      cases Action.yields_pure _ _ yields
      exact kept
  | cons node rest ih =>
      rcases Action.yields_bind _ _ _ yields with ⟨middle, first, second⟩
      exact ih middle second (Selection.keeps_gatherWithin adds _ _ _ _ first kept)

theorem keeps_collectNodes (adds : Collected.KeptByAdd keeps) (empty : keeps [])
    (nodes : List FieldNode) (fields : Collected)
    (yields : (scope.collectNodes type nodes).Yields account (.ok fields)) : keeps fields := by
  rcases Action.yields_bind _ _ _ yields with ⟨gathering, first, second⟩
  cases Action.yields_pure _ _ second
  exact keeps_gatherNodes adds nodes _ _ first empty

theorem distinct_collect (selections : List Selection) (fields : Collected)
    (yields : (scope.collect type selections).Yields account (.ok fields)) : fields.Distinct :=
  keeps_collect Collected.distinct_add List.nodup_nil selections fields yields

theorem distinct_collectNodes (nodes : List FieldNode) (fields : Collected)
    (yields : (scope.collectNodes type nodes).Yields account (.ok fields)) : fields.Distinct :=
  keeps_collectNodes Collected.distinct_add List.nodup_nil nodes fields yields

theorem grouped_collect (selections : List Selection) (fields : Collected)
    (yields : (scope.collect type selections).Yields account (.ok fields)) : fields.Grouped :=
  keeps_collect Collected.grouped_add (List.forall_mem_nil _) selections fields yields

theorem grouped_collectNodes (nodes : List FieldNode) (fields : Collected)
    (yields : (scope.collectNodes type nodes).Yields account (.ok fields)) : fields.Grouped :=
  keeps_collectNodes Collected.grouped_add (List.forall_mem_nil _) nodes fields yields

end Scope

end

end GraphQL
