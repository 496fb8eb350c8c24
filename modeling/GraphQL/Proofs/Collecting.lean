import GraphQL.Proofs.Blameless
import GraphQL.Proofs.Expanding
import GraphQL.Proofs.Visiting

/-!
What collecting fields comes to. The fields of a selection set are gathered in a walk over it, which ends
even if fragments spread each other, since none is expanded twice. What it finds is grouped by response
key: the keys come in the order of their first nodes, and the nodes of a key in the order of the walk.
-/

namespace GraphQL

namespace Scope

variable {σ : Type} (scope : Scope) (answer : Call → σ → Reply × σ) (type : TypeId)

/-- Among what may be reached there is a type condition that cannot be decided. -/
def Stuck (pending : List (Site × Selection)) (fault : SchemaFault) : Prop :=
  ∃ site selection, scope.Sees type (fun _ => true) pending site selection
    ∧ scope.opens type site selection = .error fault

/-- The directives of what may be reached can be read. -/
def Readable (pending : List (Site × Selection)) : Prop :=
  ∀ site selection, scope.Sees type (fun _ => true) pending site selection →
    scope.Binds answer selection.directives

/-- An action gathers what a walk over selections comes upon, or gets stuck. -/
def Gathers (pending : List (Site × Selection)) (before : Gathering) (action : Action Gathering) : Prop :=
  ∀ state, (∃ reads after final, scope.Walks type pending before.expanded reads after
      ∧ scope.Reads answer state reads final
      ∧ action.run answer state = (.ok ⟨before.fields.addAll (Read.nodes reads), after⟩, final))
    ∨ ∃ fault, scope.Stuck type pending fault
      ∧ (action.run answer state).1 = .error (.schema fault)

/-- How many fragments are not expanded yet. -/
def remaining (expanded : List String) : Nat :=
  scope.fragments.countP fun fragment => !expanded.contains fragment.name

variable {scope answer type} {pending others : List (Site × Selection)} {before : Gathering}

theorem Stuck.mono {fault : SchemaFault} (stuck : scope.Stuck type pending fault)
    (grows : pending ⊆ others) : scope.Stuck type others fault := by
  obtain ⟨site, selection, sees, fails⟩ := stuck
  exact ⟨site, selection, sees.mono (fun _ => id) grows, fails⟩

theorem Readable.mono (readable : scope.Readable answer type others) (grows : pending ⊆ others) :
    scope.Readable answer type pending := fun site selection sees =>
  readable site selection (sees.mono (fun _ => id) grows)

theorem remaining_mono {expanded more : List String} (grows : expanded ⊆ more) :
    scope.remaining more ≤ scope.remaining expanded := by
  refine List.countP_mono_left fun fragment _ fresh => ?_
  simp only [Bool.not_eq_true', List.contains_eq_mem, decide_eq_false_iff_not] at fresh ⊢
  exact fun member => fresh (grows member)

/-- Expanding a fragment leaves fewer. -/
theorem remaining_append_lt {expanded : List String} {name : String} {fragment : Fragment}
    (found : fragment? scope.fragments name = some fragment) (fresh : name ∉ expanded) :
    scope.remaining (expanded ++ [name]) < scope.remaining expanded := by
  obtain ⟨member, rfl⟩ := name_of_fragment? found
  have fewer : ∀ fragments : List Fragment,
      (fragments.countP fun other => !(expanded ++ [fragment.name]).contains other.name)
        ≤ fragments.countP fun other => !expanded.contains other.name := by
    refine fun fragments => List.countP_mono_left fun other _ left => ?_
    simp only [Bool.not_eq_true', List.contains_eq_mem, decide_eq_false_iff_not] at left ⊢
    exact fun inside => left (List.mem_append_left _ inside)
  obtain ⟨front, back, parts⟩ := List.append_of_mem member
  have first := fewer front
  have last := fewer back
  have gone : (!(expanded ++ [fragment.name]).contains fragment.name) = false := by simp
  have there : (!expanded.contains fragment.name) = true := by simp [fresh]
  simp only [remaining, parts, List.countP_append, List.countP_cons, gone, there, if_true,
    Bool.false_eq_true, if_false]
  omega

theorem gathers_nil (before : Gathering) : scope.Gathers answer type [] before (pure before) :=
  fun state => .inl ⟨[], before.expanded, state, .done, .done, rfl⟩

theorem Gathers.bind {action : Action Gathering} {next : Gathering → Action Gathering}
    (first : scope.Gathers answer type pending before action)
    (second : ∀ middle : Gathering, before.expanded ⊆ middle.expanded →
      scope.Gathers answer type others middle (next middle)) :
    scope.Gathers answer type (pending ++ others) before (action >>= next) := by
  intro state
  rcases first state with ⟨reads, expanded, after, walks, decided, ran⟩ | ⟨fault, stuck, failed⟩
  · rw [Action.run_bind_ok ran]
    rcases second ⟨_, expanded⟩ walks.grows after with
      ⟨more, expanded', final, walks', decided', ran'⟩ | ⟨fault, stuck, failed⟩
    · refine .inl ⟨reads ++ more, expanded', final, walks.append walks', decided.append decided', ?_⟩
      rw [ran', Read.nodes_append, Collected.addAll, Collected.addAll, Collected.addAll,
        List.foldl_append]
    · exact .inr ⟨fault, stuck.mono (List.subset_append_right _ _), failed⟩
  · exact .inr ⟨fault, stuck.mono (List.subset_append_left _ _), Action.run_bind_error failed⟩

/-- An action that goes on inside a selection as its type condition says. -/
def Enters (scope : Scope) (answer : Call → σ → Reply × σ) (type : TypeId) (site : Site)
    (selection : Selection) (before : Gathering) (action : Action Gathering) : Prop :=
  (∃ fault, scope.opens type site selection = .error fault
      ∧ ∀ state, (action.run answer state).1 = .error (.schema fault))
    ∨ ∃ inside, scope.opens type site selection = .ok inside
      ∧ scope.Gathers answer type inside
        ⟨before.fields.addAll (Read.nodes [⟨site, selection, true⟩]),
          before.expanded ++ selection.marks⟩ action

theorem gathers_read {site : Site} {selection : Selection} {next : Bool → Action Gathering}
    (readable : scope.Readable answer type [(site, selection)])
    (fresh : ∀ name ∈ selection.marks, name ∉ before.expanded) (leaves : next false = pure before)
    (enters : scope.Enters answer type site selection before (next true)) :
    scope.Gathers answer type [(site, selection)] before
      (scope.isIncluded selection.directives >>= next) := by
  intro state
  have sees : scope.Sees type (fun _ => true) [(site, selection)] site selection :=
    .here List.mem_cons_self
  obtain ⟨included, decides⟩ := readable site selection sees state
  rcases run : (scope.isIncluded selection.directives).run answer state with ⟨result, after⟩
  rw [run] at decides
  cases decides
  rw [Action.run_bind_ok run]
  cases included with
  | false =>
      rw [leaves]
      refine .inl ⟨_, _, after, .leaves fresh .done, .read run .done, ?_⟩
      cases selection <;> rfl
  | true =>
      rcases enters with ⟨fault, opens, fails⟩ | ⟨inside, opens, gathers⟩
      · exact .inr ⟨fault, ⟨site, selection, sees, opens⟩, fails after⟩
      · rcases gathers after with
          ⟨reads, expanded, final, walks, decided, ran⟩ | ⟨fault, stuck, failed⟩
        · have walks := Walks.enters fresh opens walks .done
          rw [List.append_nil] at walks
          refine .inl ⟨_, expanded, final, walks, .read run decided, ?_⟩
          have split := Read.nodes_append [⟨site, selection, true⟩] reads
          rw [List.singleton_append] at split
          rw [ran, split, Collected.addAll, Collected.addAll, Collected.addAll, List.foldl_append]
        · obtain ⟨inner, around, seen, fails⟩ := stuck
          exact .inr ⟨fault, ⟨inner, around, sees.of_inside rfl opens seen, fails⟩, failed⟩

/-- An expansion that gathers what fragments hold as long as few enough are left. -/
def Unfolds (scope : Scope) (answer : Call → σ → Reply × σ) (type : TypeId)
    (expand : Selection.Expansion) (bound : Nat) : Prop :=
  ∀ name fragment (before : Gathering), fragment? scope.fragments name = some fragment →
    scope.remaining before.expanded < bound →
    scope.Readable answer type ((Site.ofFragment name).inside fragment.selections) →
    scope.Gathers answer type ((Site.ofFragment name).inside fragment.selections) before
      (expand fragment.selections before)

theorem Readable.inside {site : Site} {selection : Selection} {inside : List (Site × Selection)}
    (readable : scope.Readable answer type [(site, selection)])
    (opens : scope.opens type site selection = .ok inside) : scope.Readable answer type inside :=
  fun inner around sees => readable inner around
    (Sees.of_inside (.here List.mem_cons_self) rfl opens sees)

theorem enters_spread {expand : Selection.Expansion} {bound : Nat} {site : Site} {start : Nat}
    {name : String} {directives : List DirectiveNode}
    (unfolds : scope.Unfolds answer type expand bound)
    (few : scope.remaining before.expanded ≤ bound) (fresh : name ∉ before.expanded)
    (readable : scope.Readable answer type [(site, .spread start name directives)]) :
    scope.Enters answer type site (.spread start name directives) before
      (Selection.gatherSpread scope type expand name before) := by
  unfold Enters Selection.gatherSpread
  cases found : fragment? scope.fragments name with
  | none =>
      refine .inr ⟨[], ?_, gathers_nil _⟩
      rw [opens, found]
  | some fragment =>
      cases applies : scope.applies (some fragment.condition) type with
      | error fault =>
          refine .inl ⟨fault, ?_, fun state => ?_⟩
          · simp only [opens, found, applies]
            rfl
          · simp only [applies]
            rfl
      | ok fits =>
          cases fits with
          | false =>
              refine .inr ⟨[], ?_, ?_⟩
              · simp only [opens, found, applies]
                rfl
              · simp only [applies]
                exact gathers_nil _
          | true =>
              have opened : scope.opens type site (.spread start name directives)
                  = .ok ((Site.ofFragment name).inside fragment.selections) := by
                simp only [opens, found, applies]
                rfl
              refine .inr ⟨_, opened, ?_⟩
              simp only [applies]
              exact unfolds name fragment ⟨before.fields, before.expanded ++ [name]⟩ found
                ((remaining_append_lt found fresh).trans_le few) (readable.inside opened)

end Scope

namespace Selection

variable {σ : Type} {scope : Scope} {answer : Call → σ → Reply × σ} {type : TypeId}
  {expand : Expansion} {bound : Nat}

mutual

theorem walks_gather (unfolds : scope.Unfolds answer type expand bound) (site : Site)
    (selection : Selection) (before : Gathering) (few : scope.remaining before.expanded ≤ bound)
    (readable : scope.Readable answer type [(site, selection)]) :
    scope.Gathers answer type [(site, selection)] before
      (gather scope type expand selection before) := by
  match selection with
  | .field start aliasName name arguments directives selections =>
      refine Scope.gathers_read readable (fun name member => by cases member) rfl ?_
      exact .inr ⟨[], rfl, by
        simp only [marks, List.append_nil]
        exact Scope.gathers_nil _⟩
  | .inlineFragment start condition directives selections =>
      refine Scope.gathers_read readable (fun name member => by cases member) rfl ?_
      cases applies : scope.applies condition type with
      | error fault =>
          refine .inl ⟨fault, ?_, fun state => ?_⟩
          · simp only [Scope.opens, applies]
            rfl
          · rfl
      | ok fits =>
          cases fits with
          | false =>
              refine .inr ⟨[], ?_, ?_⟩
              · simp only [Scope.opens, applies]
                rfl
              · simp only [marks, List.append_nil]
                exact Scope.gathers_nil _
          | true =>
              have opened : scope.opens type site (.inlineFragment start condition directives selections)
                  = .ok (site.inside selections) := by
                simp only [Scope.opens, applies]
                rfl
              refine .inr ⟨_, opened, ?_⟩
              simp only [marks, List.append_nil]
              exact walks_gatherAll unfolds site 0 selections before few (readable.inside opened)
  | .spread start name directives =>
      rw [gather]
      split
      -- the walk passes over what was expanded before, and gathering leaves it out
      · next expanded =>
          exact fun state => .inl ⟨[], before.expanded, state,
            .again ⟨name, List.mem_cons_self, by simpa using expanded⟩ .done, .done, rfl⟩
      · next unexpanded =>
          have fresh : name ∉ before.expanded := by simpa using unexpanded
          exact Scope.gathers_read readable (fun other member => List.mem_singleton.1 member ▸ fresh) rfl
            (Scope.enters_spread unfolds few fresh readable)

theorem walks_gatherAll (unfolds : scope.Unfolds answer type expand bound) (site : Site)
    (index : Nat) (selections : List Selection) (before : Gathering)
    (few : scope.remaining before.expanded ≤ bound)
    (readable : scope.Readable answer type (site.listed index selections)) :
    scope.Gathers answer type (site.listed index selections) before
      (gatherAll scope type expand selections before) := by
  match selections with
  | [] => exact Scope.gathers_nil before
  | selection :: rest =>
      have first := walks_gather unfolds (site.child index) selection before few
        (readable.mono (List.cons_subset_cons _ (List.nil_subset _)))
      exact first.bind fun middle grows =>
        walks_gatherAll unfolds site (index + 1) rest middle ((Scope.remaining_mono grows).trans few)
          (readable.mono (List.subset_cons_self _ _))

end

/-- Gathering with fragments nested as deep as there are fragments left. -/
theorem walks_gatherWithin (levels : Nat) (site : Site) (selections : List Selection)
    (before : Gathering) (few : scope.remaining before.expanded ≤ levels)
    (readable : scope.Readable answer type (site.inside selections)) :
    scope.Gathers answer type (site.inside selections) before
      (gatherWithin scope type levels selections before) := by
  induction levels generalizing site selections before with
  | zero =>
      have unfolds : scope.Unfolds answer type (fun _ gathering => return gathering) 0 :=
        fun _ _ _ _ less => absurd less (Nat.not_lt_zero _)
      exact walks_gatherAll unfolds site 0 selections before few readable
  | succ levels ih =>
      have unfolds : scope.Unfolds answer type (gatherWithin scope type levels) (levels + 1) :=
        fun name fragment before _ less readable =>
          ih (.ofFragment name) fragment.selections before (Nat.le_of_lt_succ less) readable
      exact walks_gatherAll unfolds site 0 selections before few readable

end Selection

namespace Scope

variable {σ : Type} {scope : Scope} {answer : Call → σ → Reply × σ} {type : TypeId}

theorem walks_gather {selections : List Selection}
    (readable : scope.Readable answer type (Site.here.inside selections)) :
    scope.Gathers answer type (Site.here.inside selections) .empty
      (scope.gather type selections .empty) := by
  refine Selection.walks_gatherWithin _ _ _ _ ?_ readable
  exact List.countP_le_length

end Scope

namespace Collected

/-- Nodes by response key: the keys in the order of their first nodes, and each with its nodes in
order. -/
def group (nodes : List FieldNode) : Collected :=
  (nodes.map (·.responseKey)).eraseDups.map fun key =>
    (key, nodes.filter fun node => node.responseKey = key)

theorem eraseDups_concat (keys : List String) (key : String) :
    (keys ++ [key]).eraseDups = if key ∈ keys then keys.eraseDups else keys.eraseDups ++ [key] := by
  rw [List.eraseDups_append]
  split
  · next inside => simp [List.removeAll, inside]
  · next new => simp [List.removeAll, new, List.eraseDups_cons]

theorem nodup_eraseDups (keys : List String) : keys.eraseDups.Nodup := by
  induction keys using List.reverseRecOn with
  | nil => exact .nil
  | append_singleton keys key ih =>
      rw [eraseDups_concat]
      split
      · exact ih
      · next new =>
          exact List.nodup_append'.2 ⟨ih, List.nodup_singleton _, fun other member same =>
            new (List.mem_singleton.1 same ▸ List.mem_eraseDups.1 member)⟩

end Collected

namespace Scope

variable {σ : Type} {scope : Scope} {answer : Call → σ → Reply × σ} {type : TypeId}

end Scope

mutual

/-- A selection, and what its inline fragments hold on any level. -/
def Selection.spelled : Selection → List Selection
  | .inlineFragment start condition directives selections =>
    .inlineFragment start condition directives selections :: Selection.spelledAll selections
  | selection => [selection]

def Selection.spelledAll : List Selection → List Selection
  | [] => []
  | selection :: rest => selection.spelled ++ Selection.spelledAll rest

end

namespace Selection

mutual

theorem spelled_trans {start : Nat} {condition : Option String} {directives : List DirectiveNode}
    {inside : List Selection} (selection : Selection)
    (member : .inlineFragment start condition directives inside ∈ selection.spelled) :
    spelledAll inside ⊆ selection.spelled := by
  match selection with
  | .field .. => simp [spelled] at member
  | .inlineFragment _ _ _ selections =>
      rw [spelled] at member ⊢
      rcases List.mem_cons.1 member with same | within
      · cases same
        exact List.subset_cons_self _ _
      · exact List.Subset.trans (spelledAll_trans selections within) (List.subset_cons_self _ _)
  | .spread .. => simp [spelled] at member

theorem spelledAll_trans {start : Nat} {condition : Option String} {directives : List DirectiveNode}
    {inside : List Selection} (selections : List Selection)
    (member : .inlineFragment start condition directives inside ∈ spelledAll selections) :
    spelledAll inside ⊆ spelledAll selections := by
  match selections with
  | [] => cases member
  | selection :: rest =>
      rw [spelledAll] at member ⊢
      rcases List.mem_append.1 member with here | later
      · exact List.Subset.trans (spelled_trans selection here) (List.subset_append_left _ _)
      · exact List.Subset.trans (spelledAll_trans rest later) (List.subset_append_right _ _)

end

end Selection

namespace Scope

variable {scope : Scope} {type : TypeId} {selections : List Selection}

/-- A schema with a root and two types of one name. -/
def twins : Schema :=
  let fields : Checked (Table Field) := .ok (.ofList [(.str "a",
    { name := .str "a", type := .ok (.named (.standard .int)), arguments := .ok .empty
      resolve := .absent, complexity := .absent, deprecated := none })])
  .ofLayout
    { types := #[⟨.str "Query", .object fields (.ok []) .absent⟩,
        ⟨.str "T", .object fields (.ok []) .absent⟩, ⟨.str "T", .object fields (.ok []) .absent⟩]
      query := some (.named (.declared 0))
      mutation := none
      subscription := none
      extra := [.named (.declared 1), .named (.declared 2)]
      directives := Directive.specified
      overrides := []
      assumeValid := true }

end Scope

end GraphQL
