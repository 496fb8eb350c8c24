import GraphQL.Proofs.AcceptedInputs
import GraphQL.Proofs.Inlining

/-!
Walking over selections. A selection is known by its site: it stands in the selection set at hand or in a
fragment, and there on a way through inline fragments. A walk goes depth first over the sites and into
each fragment where it is first spread. It comes upon everything that is reached through selections that
take part and apply, and upon no site twice.
-/

namespace GraphQL

/-- Where a selection stands: in the selection set at hand or in a fragment, and on which way. -/
structure Site where
  fragment : Option String
  route : List Nat
deriving DecidableEq

namespace Site

def child (site : Site) (index : Nat) : Site := { site with route := site.route ++ [index] }

/-- Selections beside each other, from an index on. -/
def listed (site : Site) (index : Nat) : List Selection → List (Site × Selection)
  | [] => []
  | selection :: rest => (site.child index, selection) :: site.listed (index + 1) rest

/-- The selections at a site. -/
def inside (site : Site) (selections : List Selection) : List (Site × Selection) :=
  site.listed 0 selections

def here : Site := ⟨none, []⟩

def ofFragment (name : String) : Site := ⟨some name, []⟩

/-- A site on the way through another one, or that site itself. -/
def Below (site other : Site) : Prop :=
  site.fragment = other.fragment ∧ other.route <+: site.route

/-- Sites that no way leads through together. -/
def Apart (site other : Site) : Prop := ∀ below : Site, below.Below site → ¬ below.Below other

variable {site other : Site}

theorem Below.refl (site : Site) : site.Below site := ⟨rfl, List.prefix_refl _⟩

theorem Below.of_child {index : Nat} (below : other.Below (site.child index)) :
    other.Below site ∧ other ≠ site := by
  obtain ⟨same, leads⟩ := below
  refine ⟨⟨same, (List.prefix_append _ _).trans leads⟩, fun equal => ?_⟩
  have longer := leads.length_le
  rw [equal, child, List.length_append, List.length_singleton] at longer
  omega

theorem apart_child {index later : Nat} (less : index < later) :
    (site.child index).Apart (site.child later) := by
  rintro below ⟨_, first⟩ ⟨_, second⟩
  have same := (List.prefix_of_prefix_length_le first second (by simp [child])).eq_of_length
    (by simp [child])
  have equal := List.append_cancel_left same
  cases equal
  exact lt_irrefl _ less

theorem exists_index_of_mem_listed {index : Nat} {selections : List Selection}
    {entry : Site × Selection} (member : entry ∈ site.listed index selections) :
    ∃ later, index ≤ later ∧ entry.1 = site.child later := by
  induction selections generalizing index with
  | nil => cases member
  | cons first rest ih =>
      rcases List.mem_cons.1 member with rfl | inside
      · exact ⟨index, Nat.le_refl _, rfl⟩
      · obtain ⟨later, le, same⟩ := ih inside
        exact ⟨later, Nat.le_of_succ_le le, same⟩

theorem apart_listed (site : Site) (index : Nat) (selections : List Selection) :
    (site.listed index selections).Pairwise fun entry other => entry.1.Apart other.1 := by
  induction selections generalizing index with
  | nil => exact .nil
  | cons first rest ih =>
      refine .cons (fun entry member => ?_) (ih (index + 1))
      obtain ⟨later, less, same⟩ := exists_index_of_mem_listed member
      rw [same]
      exact apart_child less

end Site

namespace Selection

def directives : Selection → List DirectiveNode
  | field _ _ _ _ directives _ => directives
  | inlineFragment _ _ directives _ => directives
  | spread _ _ directives => directives

/-- The fragment that a selection spreads. -/
def marks : Selection → List String
  | spread _ name _ => [name]
  | _ => []

end Selection

/-- A selection that was come upon, and whether its directives let it take part. -/
structure Read where
  site : Site
  selection : Selection
  included : Bool

namespace Read

/-- The field that was found, if there was one. -/
def field? (read : Read) : Option (Site × FieldNode) :=
  match read.selection with
  | .field start aliasName name arguments directives selections =>
    if read.included then
      some (read.site, ⟨start, aliasName, name, arguments, directives, selections⟩)
    else none
  | _ => none

/-- The fields that were found, one after the other. -/
def fields (reads : List Read) : List (Site × FieldNode) := reads.filterMap field?

def nodes (reads : List Read) : List FieldNode := (fields reads).map (·.2)

theorem nodes_append (reads more : List Read) : nodes (reads ++ more) = nodes reads ++ nodes more := by
  rw [nodes, fields, List.filterMap_append, List.map_append]
  rfl

end Read

namespace Scope

/-- What stands inside a selection, if its type condition fits. -/
def opens (scope : Scope) (type : TypeId) (site : Site) : Selection → Checked (List (Site × Selection))
  | .field .. => .ok []
  | .inlineFragment _ condition _ selections => do
    if ← scope.applies condition type then return site.inside selections else return []
  | .spread _ name _ =>
    match fragment? scope.fragments name with
    | none => .ok []
    | some fragment => do
      if ← scope.applies (some fragment.condition) type then
        return (Site.ofFragment name).inside fragment.selections
      else return []

/-- What is reached from some selections through inline fragments and spreads that take part and whose
type conditions fit. -/
inductive Sees (scope : Scope) (type : TypeId) (lets : Site → Bool) (start : List (Site × Selection)) :
    Site → Selection → Prop where
  | here {site : Site} {selection : Selection} :
    (site, selection) ∈ start → Sees scope type lets start site selection
  | inside {outer site : Site} {around selection : Selection} {inside : List (Site × Selection)} :
    Sees scope type lets start outer around → lets outer = true →
    scope.opens type outer around = .ok inside → (site, selection) ∈ inside →
    Sees scope type lets start site selection

/-- A depth-first walk over selections, which passes over spreads of fragments that were expanded
before. -/
inductive Walks (scope : Scope) (type : TypeId) :
    List (Site × Selection) → List String → List Read → List String → Prop where
  | done {before : List String} : Walks scope type [] before [] before
  | again {site : Site} {selection : Selection} {rest : List (Site × Selection)}
      {before after : List String} {reads : List Read} :
    (∃ name ∈ selection.marks, name ∈ before) → Walks scope type rest before reads after →
    Walks scope type ((site, selection) :: rest) before reads after
  | leaves {site : Site} {selection : Selection} {rest : List (Site × Selection)}
      {before after : List String} {reads : List Read} :
    (∀ name ∈ selection.marks, name ∉ before) → Walks scope type rest before reads after →
    Walks scope type ((site, selection) :: rest) before (⟨site, selection, false⟩ :: reads) after
  | enters {site : Site} {selection : Selection} {inside rest : List (Site × Selection)}
      {before middle after : List String} {below later : List Read} :
    (∀ name ∈ selection.marks, name ∉ before) → scope.opens type site selection = .ok inside →
    Walks scope type inside (before ++ selection.marks) below middle →
    Walks scope type rest middle later after →
    Walks scope type ((site, selection) :: rest) before
      (⟨site, selection, true⟩ :: (below ++ later)) after

/-- What the directives of selections come to when they are read one after the other. -/
inductive Reads {σ : Type} (scope : Scope) (answer : Call → σ → Reply × σ) :
    σ → List Read → σ → Prop where
  | done {state : σ} : Reads scope answer state [] state
  | read {state next final : σ} {read : Read} {rest : List Read} :
    (scope.isIncluded read.selection.directives).run answer state = (.ok read.included, next) →
    Reads scope answer next rest final → Reads scope answer state (read :: rest) final

/-- Whatever state they are read in, directives let a selection take part or not. -/
def Binds {σ : Type} (scope : Scope) (answer : Call → σ → Reply × σ) (directives : List DirectiveNode) :
    Prop :=
  ∀ state, ∃ included, ((scope.isIncluded directives).run answer state).1 = .ok included

section

variable {σ : Type} {scope : Scope} {answer : Call → σ → Reply × σ} {type : TypeId}

theorem Sees.mono {lets more : Site → Bool} {start others : List (Site × Selection)} {site : Site}
    {selection : Selection} (lenient : ∀ site, lets site = true → more site = true)
    (grows : start ⊆ others) (sees : scope.Sees type lets start site selection) :
    scope.Sees type more others site selection := by
  induction sees with
  | here member => exact .here (grows member)
  | inside _ takes opens member ih => exact .inside ih (lenient _ takes) opens member

theorem Sees.of_inside {lets : Site → Bool} {start inside : List (Site × Selection)}
    {outer site : Site} {around selection : Selection} (first : scope.Sees type lets start outer around)
    (takes : lets outer = true) (opens : scope.opens type outer around = .ok inside)
    (sees : scope.Sees type lets inside site selection) :
    scope.Sees type lets start site selection := by
  induction sees with
  | here member => exact .inside first takes opens member
  | inside _ takes opens member ih => exact .inside ih takes opens member

theorem Reads.append {state middle final : σ} {reads more : List Read}
    (first : scope.Reads answer state reads middle) (second : scope.Reads answer middle more final) :
    scope.Reads answer state (reads ++ more) final := by
  induction first with
  | done => exact second
  | read ran _ ih => exact .read ran (ih second)

theorem Walks.append {pending others : List (Site × Selection)} {before middle after : List String}
    {reads more : List Read} (first : scope.Walks type pending before reads middle)
    (second : scope.Walks type others middle more after) :
    scope.Walks type (pending ++ others) before (reads ++ more) after := by
  induction first with
  | done => exact second
  | again expanded _ ih => exact .again expanded (ih second)
  | leaves fresh _ ih => exact .leaves fresh (ih second)
  | enters fresh opens inside _ _ ih =>
      rw [List.cons_append, List.cons_append, List.append_assoc]
      exact .enters fresh opens inside (ih second)

theorem Walks.grows {pending : List (Site × Selection)} {before after : List String} {reads : List Read}
    (walks : scope.Walks type pending before reads after) : before ⊆ after := by
  induction walks with
  | done => exact List.Subset.refl _
  | again _ _ ih => exact ih
  | leaves _ _ ih => exact ih
  | enters _ _ _ _ ih ihRest =>
      exact List.Subset.trans (List.subset_append_left _ _) (List.Subset.trans ih ihRest)

end

end Scope

namespace Scope

variable {σ : Type} {scope : Scope} {answer : Call → σ → Reply × σ} {type : TypeId}

variable {lets : Site → Bool} {start pending : List (Site × Selection)} {before after : List String}
  {reads : List Read}

/-- Decisions on sites that are those that were made. -/
def Agrees (lets : Site → Bool) (reads : List Read) : Prop :=
  ∀ read ∈ reads, lets read.site = read.included

theorem Walks.sees (walks : scope.Walks type pending before reads after) (agrees : Agrees lets reads)
    (seen : ∀ entry ∈ pending, scope.Sees type lets start entry.1 entry.2) :
    ∀ read ∈ reads, scope.Sees type lets start read.site read.selection := by
  induction walks with
  | done =>
      intro read member
      cases member
  | again _ _ ih => exact ih agrees fun entry member => seen entry (List.mem_cons_of_mem _ member)
  | leaves _ _ ih =>
      obtain ⟨_, later⟩ := List.forall_mem_cons.1 agrees
      exact List.forall_mem_cons.2 ⟨seen _ List.mem_cons_self,
        ih later fun entry member => seen entry (List.mem_cons_of_mem _ member)⟩
  | enters _ opens _ _ ih ihRest =>
      obtain ⟨takes, others⟩ := List.forall_mem_cons.1 agrees
      obtain ⟨within, later⟩ := List.forall_mem_append.1 others
      have here := seen _ List.mem_cons_self
      exact List.forall_mem_cons.2 ⟨here, List.forall_mem_append.2
        ⟨ih within fun entry member => .inside here takes opens member,
          ihRest later fun entry member => seen entry (List.mem_cons_of_mem _ member)⟩⟩

/-- A selection that is read, or spreads a fragment that was expanded. -/
def Settled (reads : List Read) (expanded : List String) (site : Site) (selection : Selection) : Prop :=
  (∃ read ∈ reads, read.site = site ∧ read.selection = selection)
    ∨ ∃ name ∈ selection.marks, name ∈ expanded

theorem Settled.mono {more : List Read} {expanded others : List String} {site : Site}
    {selection : Selection} (settled : Settled reads expanded site selection) (grows : reads ⊆ more)
    (expands : expanded ⊆ others) : Settled more others site selection :=
  settled.imp (fun ⟨read, member, same⟩ => ⟨read, grows member, same⟩)
    fun ⟨name, marked, member⟩ => ⟨name, marked, expands member⟩

/-- A selection that was gone into if it takes part, so that nothing inside is left out. -/
def Finished (scope : Scope) (type : TypeId) (reads : List Read) (expanded : List String) (read : Read) :
    Prop :=
  read.included = true → ∃ inside, scope.opens type read.site read.selection = .ok inside
    ∧ ∀ entry ∈ inside, Settled reads expanded entry.1 entry.2

theorem Finished.mono {more : List Read} {expanded others : List String} {read : Read}
    (finished : scope.Finished type reads expanded read) (grows : reads ⊆ more)
    (expands : expanded ⊆ others) : scope.Finished type more others read := by
  intro included
  obtain ⟨inside, opens, settled⟩ := finished included
  exact ⟨inside, opens, fun entry member => (settled entry member).mono grows expands⟩

/-- A fragment that one of the selections spread. -/
def Spread (reads : List Read) (name : String) : Prop :=
  ∃ read ∈ reads, read.included = true ∧ name ∈ read.selection.marks

theorem Spread.mono {more : List Read} {name : String} (spread : Spread reads name)
    (grows : reads ⊆ more) : Spread more name := by
  obtain ⟨read, member, marked⟩ := spread
  exact ⟨read, grows member, marked⟩

theorem Walks.settles (walks : scope.Walks type pending before reads after) :
    (∀ entry ∈ pending, Settled reads after entry.1 entry.2)
      ∧ (∀ read ∈ reads, scope.Finished type reads after read)
      ∧ ∀ name ∈ after, name ∈ before ∨ Spread reads name := by
  induction walks with
  | done =>
      exact ⟨(fun _ member => by cases member), (fun _ member => by cases member), fun _ => .inl⟩
  | again expanded later ih =>
      obtain ⟨others, finished, spreads⟩ := ih
      obtain ⟨name, marked, member⟩ := expanded
      exact ⟨List.forall_mem_cons.2 ⟨.inr ⟨name, marked, later.grows member⟩, others⟩, finished,
        spreads⟩
  | @leaves site selection _ _ _ reads _ _ ih =>
      obtain ⟨others, finished, spreads⟩ := ih
      have wider : reads ⊆ ⟨site, selection, false⟩ :: reads := List.subset_cons_self _ _
      refine ⟨List.forall_mem_cons.2 ⟨.inl ⟨_, List.mem_cons_self, rfl, rfl⟩, fun entry member =>
          (others entry member).mono wider (List.Subset.refl _)⟩,
        List.forall_mem_cons.2 ⟨(fun included => by cases included), fun read member =>
          (finished read member).mono wider (List.Subset.refl _)⟩, fun name member =>
          (spreads name member).imp_right fun spread => spread.mono wider⟩
  | @enters site selection inside _ _ middle after below later _ opens _ rest ih ihRest =>
      obtain ⟨within, finished, spreads⟩ := ih
      obtain ⟨others, finished', spreads'⟩ := ihRest
      have wide : below ⊆ ⟨site, selection, true⟩ :: (below ++ later) :=
        List.Subset.trans (List.subset_append_left _ _) (List.subset_cons_self _ _)
      have wide' : later ⊆ ⟨site, selection, true⟩ :: (below ++ later) :=
        List.Subset.trans (List.subset_append_right _ _) (List.subset_cons_self _ _)
      refine ⟨List.forall_mem_cons.2 ⟨.inl ⟨_, List.mem_cons_self, rfl, rfl⟩, fun entry member =>
          (others entry member).mono wide' (List.Subset.refl _)⟩,
        List.forall_mem_cons.2 ⟨fun _ => ⟨inside, opens, fun entry member =>
          (within entry member).mono wide rest.grows⟩, List.forall_mem_append.2
          ⟨fun read member => (finished read member).mono wide rest.grows, fun read member =>
            (finished' read member).mono wide' (List.Subset.refl _)⟩⟩, fun name member => ?_⟩
      rcases spreads' name member with earlier | spread
      · rcases spreads name earlier with known | spread
        · rcases List.mem_append.1 known with old | marked
          · exact .inl old
          · exact .inr ⟨_, List.mem_cons_self, rfl, marked⟩
        · exact .inr (spread.mono wide)
      · exact .inr (spread.mono wide')

theorem apart_of_opens {site : Site} {selection : Selection} {inside : List (Site × Selection)}
    (opens : scope.opens type site selection = .ok inside) :
    (inside.Pairwise fun entry other => entry.1.Apart other.1)
      ∧ ∀ entry ∈ inside, (∃ index, entry.1 = site.child index)
        ∨ ∃ name ∈ selection.marks, entry.1.fragment = some name := by
  have nothing : (([] : List (Site × Selection)).Pairwise fun entry other => entry.1.Apart other.1)
      ∧ ∀ entry ∈ ([] : List (Site × Selection)), (∃ index, entry.1 = site.child index)
        ∨ ∃ name ∈ selection.marks, entry.1.fragment = some name :=
    ⟨.nil, fun entry member => by cases member⟩
  cases selection with
  | field =>
      cases opens
      exact nothing
  | inlineFragment start condition directives selections =>
      obtain ⟨fits, _, opens⟩ := Checked.ok_of_bind opens
      cases fits with
      | false =>
          cases opens
          exact nothing
      | true =>
          cases opens
          refine ⟨Site.apart_listed _ _ _, fun entry member => .inl ?_⟩
          obtain ⟨index, _, same⟩ := Site.exists_index_of_mem_listed member
          exact ⟨index, same⟩
  | spread start name directives =>
      rw [Scope.opens] at opens
      split at opens
      · cases opens
        exact nothing
      · obtain ⟨fits, _, opens⟩ := Checked.ok_of_bind opens
        cases fits with
        | false =>
            cases opens
            exact nothing
        | true =>
            cases opens
            refine ⟨Site.apart_listed _ _ _, fun entry member => .inr ⟨name, List.mem_cons_self, ?_⟩⟩
            obtain ⟨index, _, same⟩ := Site.exists_index_of_mem_listed member
            rw [same]
            rfl

/-- A site below a selection, or in a fragment that was expanded meanwhile. -/
def Located (pending : List (Site × Selection)) (before after : List String) (site : Site) : Prop :=
  (∃ entry ∈ pending, site.Below entry.1)
    ∨ ∃ name ∈ after, name ∉ before ∧ site.fragment = some name

theorem Located.cons {site : Site} {entry : Site × Selection}
    (located : Located pending before after site) : Located (entry :: pending) before after site :=
  located.imp_left fun ⟨other, member, below⟩ => ⟨other, List.mem_cons_of_mem _ member, below⟩

theorem Located.not_below {site other : Site} (located : Located pending before after site)
    (apart : ∀ entry ∈ pending, other.Apart entry.1)
    (known : ∀ name, other.fragment = some name → name ∈ before) : ¬ site.Below other := by
  intro below
  rcases located with ⟨entry, member, beside⟩ | ⟨name, _, fresh, same⟩
  · exact apart entry member site below beside
  · exact fresh (known name (below.1 ▸ same))

/-- A site inside a selection: below it and not there, or in a fragment that was expanded from there. -/
def Inside (site : Site) (before middle : List String) (other : Site) : Prop :=
  (other.Below site ∧ other ≠ site) ∨ ∃ name ∈ middle, name ∉ before ∧ other.fragment = some name

section Inside

variable {site other : Site} {middle : List String}

theorem inside_of_located {selection : Selection} {opened : List (Site × Selection)}
    (opens : scope.opens type site selection = .ok opened)
    (fresh : ∀ name ∈ selection.marks, name ∉ before)
    (grows : before ++ selection.marks ⊆ middle)
    (located : Located opened (before ++ selection.marks) middle other) :
    Inside site before middle other := by
  rcases located with ⟨entry, inner, under⟩ | ⟨name, expanded, unknown, same⟩
  · rcases (apart_of_opens opens).2 entry inner with ⟨index, child⟩ | ⟨spread, marked, same⟩
    · exact .inl (child ▸ under).of_child
    · exact .inr ⟨spread, grows (List.mem_append_right _ marked), fresh spread marked,
        under.1.trans same⟩
  · exact .inr ⟨name, expanded, fun old => unknown (List.mem_append_left _ old), same⟩

theorem Inside.ne (inner : Inside site before middle other)
    (standing : ∀ name, site.fragment = some name → name ∈ before) : other ≠ site := by
  rcases inner with ⟨_, differs⟩ | ⟨name, _, unknown, same⟩
  · exact differs
  · exact fun equal => unknown (standing name (equal ▸ same))

theorem Inside.not_located (inner : Inside site before middle other) (grows : before ⊆ middle)
    (apart : ∀ entry ∈ pending, site.Apart entry.1)
    (standing : ∀ name, site.fragment = some name → name ∈ before)
    (known : ∀ entry ∈ pending, ∀ name, entry.1.fragment = some name → name ∈ before) :
    ¬ Located pending middle after other := by
  intro located
  rcases inner with ⟨under, _⟩ | ⟨name, expanded, unknown, same⟩
  · exact located.not_below apart (fun name same => grows (standing name same)) under
  · rcases located with ⟨entry, member, under⟩ | ⟨spread, _, unexpanded, same'⟩
    · exact unknown (known entry member name (under.1 ▸ same))
    · cases same.symm.trans same'
      exact unexpanded expanded

end Inside

/-- A walk over selections apart comes upon no site twice. -/
theorem Walks.nodup (walks : scope.Walks type pending before reads after)
    (apart : pending.Pairwise fun entry other => entry.1.Apart other.1)
    (known : ∀ entry ∈ pending, ∀ name, entry.1.fragment = some name → name ∈ before) :
    (reads.map (·.site)).Nodup ∧ ∀ read ∈ reads, Located pending before after read.site := by
  induction walks with
  | done => exact ⟨.nil, fun read member => by cases member⟩
  | again _ _ ih =>
      obtain ⟨nodup, located⟩ := ih (List.pairwise_cons.1 apart).2 fun entry member =>
        known entry (List.mem_cons_of_mem _ member)
      exact ⟨nodup, fun read member => (located read member).cons⟩
  | leaves _ _ ih =>
      obtain ⟨first, later⟩ := List.pairwise_cons.1 apart
      obtain ⟨nodup, located⟩ := ih later fun entry member =>
        known entry (List.mem_cons_of_mem _ member)
      refine ⟨List.nodup_cons.2 ⟨fun member => ?_, nodup⟩, List.forall_mem_cons.2
        ⟨.inl ⟨_, List.mem_cons_self, .refl _⟩, fun read member => (located read member).cons⟩⟩
      obtain ⟨read, inside, same⟩ := List.mem_map.1 member
      exact (same ▸ located read inside).not_below first (known _ List.mem_cons_self) (.refl _)
  | @enters site selection inside rest before middle after below later fresh opens within beyond ih
      ihRest =>
      obtain ⟨first, apartRest⟩ := List.pairwise_cons.1 apart
      obtain ⟨standing, knownRest⟩ := List.forall_mem_cons.1 known
      obtain ⟨apartInside, stands⟩ := apart_of_opens opens
      have grows : before ⊆ middle :=
        List.Subset.trans (List.subset_append_left _ _) within.grows
      obtain ⟨nodup, located⟩ := ih apartInside fun entry member name same => by
        rcases stands entry member with ⟨index, child⟩ | ⟨spread, marked, same'⟩
        · rw [child] at same
          exact List.mem_append_left _ (standing name same)
        · cases same.symm.trans same'
          exact List.mem_append_right _ marked
      obtain ⟨nodup', located'⟩ := ihRest apartRest fun entry member name same =>
        grows (knownRest entry member name same)
      -- what is found inside the selection stands apart from what is found beside it
      have inner : ∀ read ∈ below, Inside site before middle read.site := fun read member =>
        inside_of_located opens fresh within.grows (located read member)
      rw [List.map_cons, List.map_append]
      refine ⟨List.nodup_cons.2 ⟨fun member => ?_, List.nodup_append'.2 ⟨nodup, nodup', ?_⟩⟩,
        List.forall_mem_cons.2 ⟨.inl ⟨_, List.mem_cons_self, .refl _⟩,
          List.forall_mem_append.2 ⟨fun read member => ?_, fun read member => ?_⟩⟩⟩
      · rcases List.mem_append.1 member with found | found
        · obtain ⟨read, here, same⟩ := List.mem_map.1 found
          exact (inner read here).ne standing same
        · obtain ⟨read, outer, same⟩ := List.mem_map.1 found
          exact (located' read outer).not_below first (fun name same => grows (standing name same))
            (same ▸ .refl _)
      · intro shared found found'
        obtain ⟨read, here, rfl⟩ := List.mem_map.1 found
        obtain ⟨other, outer, same⟩ := List.mem_map.1 found'
        exact (inner read here).not_located grows first standing knownRest (same ▸ located' other outer)
      · exact (inner read member).imp (fun under => ⟨_, List.mem_cons_self, under.1⟩)
          fun ⟨name, expanded, rest⟩ => ⟨name, beyond.grows expanded, rest⟩
      · have anywhere : Located rest before after read.site :=
          (located' read member).imp_right fun ⟨name, expanded, unknown, same⟩ =>
            ⟨name, expanded, fun old => unknown (grows old), same⟩
        exact anywhere.cons

theorem Reads.split {state final : σ} {reads more : List Read}
    (decided : scope.Reads answer state (reads ++ more) final) :
    ∃ middle, scope.Reads answer state reads middle ∧ scope.Reads answer middle more final := by
  induction reads generalizing state with
  | nil => exact ⟨state, .done, decided⟩
  | cons first rest ih =>
      cases decided with
      | read ran later =>
          obtain ⟨middle, front, back⟩ := ih later
          exact ⟨middle, .read ran front, back⟩

theorem Reads.unique {state final last : σ} {reads : List Read}
    (decided : scope.Reads answer state reads final) (again : scope.Reads answer state reads last) :
    final = last := by
  induction decided with
  | done =>
      cases again
      rfl
  | read ran _ ih =>
      cases again with
      | read ran' later =>
          cases ran.symm.trans ran'
          exact ih later

/-- Directives are read in one way, so there is one walk. -/
theorem Walks.unique {pending : List (Site × Selection)} {before after expanded : List String}
    {reads others : List Read} {state final last : σ}
    (walks : scope.Walks type pending before reads after) (decided : scope.Reads answer state reads final)
    (again : scope.Walks type pending before others expanded)
    (redecided : scope.Reads answer state others last) : reads = others ∧ after = expanded := by
  -- By induction on the first walk. Which rule the other one takes is up to the fragments that were
  -- expanded and to the directive that both have read.
  induction walks generalizing others expanded state final last with
  | done =>
      cases again
      exact ⟨rfl, rfl⟩
  | again known _ ih =>
      obtain ⟨name, marked, member⟩ := known
      cases again with
      | again _ later => exact ih decided later redecided
      | leaves fresh => exact absurd member (fresh name marked)
      | enters fresh => exact absurd member (fresh name marked)
  | leaves fresh _ ih =>
      cases decided with
      | read ran rest =>
          cases again with
          | again known =>
              obtain ⟨name, marked, member⟩ := known
              exact absurd member (fresh name marked)
          | leaves _ later =>
              cases redecided with
              | read ran' rest' =>
                  cases ran.symm.trans ran'
                  obtain ⟨rfl, rfl⟩ := ih rest later rest'
                  exact ⟨rfl, rfl⟩
          | enters =>
              cases redecided with
              | read ran' _ => cases ran.symm.trans ran'
  | enters fresh opens _ _ ih ihRest =>
      cases decided with
      | read ran rest =>
          cases again with
          | again known =>
              obtain ⟨name, marked, member⟩ := known
              exact absurd member (fresh name marked)
          | leaves =>
              cases redecided with
              | read ran' _ => cases ran.symm.trans ran'
          | enters _ opens' inside later =>
              cases redecided with
              | read ran' rest' =>
                  cases ran.symm.trans ran'
                  cases opens.symm.trans opens'
                  obtain ⟨_, below, beyond⟩ := rest.split
                  obtain ⟨_, below', beyond'⟩ := rest'.split
                  obtain ⟨rfl, rfl⟩ := ih below inside below'
                  cases below.unique below'
                  obtain ⟨rfl, rfl⟩ := ihRest beyond later beyond'
                  exact ⟨rfl, rfl⟩

/-- What a walk from the start comes upon, with the decisions as the directives are read in its
course. -/
def Visits (scope : Scope) (answer : Call → σ → Reply × σ) (type : TypeId)
    (start : List (Site × Selection)) (state : σ) (reads : List Read) (final : σ) : Prop :=
  (∃ expanded, scope.Walks type start [] reads expanded) ∧ scope.Reads answer state reads final

end Scope

end GraphQL
