import GraphQL.Proofs.Implementing

/-!
The type map as a closure. The walk over the types of a schema keeps a stack of what it has yet to look
at. It finds what a recursive walk finds that visits each type before the types that it refers to: all
types that the roots, the extra types and the arguments of directives lead to, each once. It refuses a
schema exactly if these lead to something that is no type, or to two types of one name.
-/

namespace GraphQL

namespace Layout

/-- The named type that is left of a candidate without its wrappers and with overrides in place. -/
def Denotes (layout : Layout) (candidate : Candidate) (id : TypeId) : Prop :=
  ∃ ref inner, candidate = .type ref ∧ ref.innermost = .ok inner ∧ layout.leafInEffect inner = id

/-- What stands for a type where the origins lead. -/
inductive Leads (layout : Layout) (origins : List Candidate) : Candidate → Prop where
  | origin {candidate : Candidate} : candidate ∈ origins → Leads layout origins candidate
  | reference {outer candidate : Candidate} {id : TypeId} {references : List Candidate} :
    Leads layout origins outer → layout.Denotes outer id →
    (layout.definition id).references = .ok references → candidate ∈ references →
    Leads layout origins candidate

/-- The named types to which the origins lead. -/
def Reaches (layout : Layout) (origins : List Candidate) (id : TypeId) : Prop :=
  ∃ candidate, layout.Leads origins candidate ∧ layout.Denotes candidate id

/-- The types that a recursive walk over candidates visits, after those that were visited before: each
one as it is first met, and then what it refers to. -/
inductive Preorder (layout : Layout) : List TypeId → List Candidate → List TypeId → Prop where
  | done {before : List TypeId} : Preorder layout before [] []
  | nothing {before order : List TypeId} {value : Value} {rest : List Candidate} :
    value.isNull = true → Preorder layout before rest order →
    Preorder layout before (.other value :: rest) order
  | again {before order : List TypeId} {candidate : Candidate} {rest : List Candidate} {id : TypeId} :
    layout.Denotes candidate id → id ∈ before → Preorder layout before rest order →
    Preorder layout before (candidate :: rest) order
  | first {before below after : List TypeId} {candidate : Candidate}
      {references rest : List Candidate} {id : TypeId} :
    layout.Denotes candidate id → id ∉ before →
    (layout.definition id).references = .ok references →
    Preorder layout (before ++ [id]) references below →
    Preorder layout (before ++ id :: below) rest after →
    Preorder layout before (candidate :: rest) (id :: below ++ after)

/-- A type as it stands in the type map. -/
def entry (layout : Layout) (id : TypeId) : Value × TypeId := ((layout.definition id).name, id)

variable {layout : Layout} {origins : List Candidate}

theorem Denotes.unique {candidate : Candidate} {id other : TypeId} (denotes : layout.Denotes candidate id)
    (again : layout.Denotes candidate other) : id = other := by
  obtain ⟨ref, inner, rfl, leads, rfl⟩ := denotes
  obtain ⟨_, _, ⟨⟩, leads', rfl⟩ := again
  rw [leads] at leads'
  cases leads'
  rfl

namespace Preorder

theorem unique {before order other : List TypeId} {candidates : List Candidate}
    (walk : layout.Preorder before candidates order) (again : layout.Preorder before candidates other) :
    order = other := by
  induction walk generalizing other with
  | done =>
      cases again
      rfl
  | nothing null _ ih =>
      cases again with
      | nothing _ later => exact ih later
      | again denotes => obtain ⟨_, _, ⟨⟩, _⟩ := denotes
      | first denotes => obtain ⟨_, _, ⟨⟩, _⟩ := denotes
  | again denotes member _ ih =>
      cases again with
      | nothing => obtain ⟨_, _, ⟨⟩, _⟩ := denotes
      | again _ _ later => exact ih later
      | first denotes' fresh =>
          cases denotes.unique denotes'
          exact absurd member fresh
  | first denotes fresh refers _ _ ih ihRest =>
      cases again with
      | nothing => obtain ⟨_, _, ⟨⟩, _⟩ := denotes
      | again denotes' member =>
          cases denotes.unique denotes'
          exact absurd member fresh
      | first denotes' _ refers' inside later =>
          cases denotes.unique denotes'
          cases refers.symm.trans refers'
          cases ih inside
          cases ihRest later
          rfl

theorem split {before order : List TypeId} {candidates others : List Candidate}
    (walk : layout.Preorder before (candidates ++ others) order) :
    ∃ first second, order = first ++ second ∧ layout.Preorder before candidates first
      ∧ layout.Preorder (before ++ first) others second := by
  induction candidates generalizing before order with
  | nil => exact ⟨[], order, rfl, .done, by rwa [List.append_nil]⟩
  | cons candidate rest ih =>
      cases walk with
      | nothing null later =>
          obtain ⟨first, second, rfl, front, back⟩ := ih later
          exact ⟨first, second, rfl, .nothing null front, back⟩
      | again denotes member later =>
          obtain ⟨first, second, rfl, front, back⟩ := ih later
          exact ⟨first, second, rfl, .again denotes member front, back⟩
      | @first _ below _ _ references _ id denotes fresh refers inside later =>
          obtain ⟨first, second, rfl, front, back⟩ := ih later
          refine ⟨id :: below ++ first, second, (List.append_assoc _ _ _).symm,
            .first denotes fresh refers inside front, ?_⟩
          rwa [← List.append_assoc]

theorem nodup {before order : List TypeId} {candidates : List Candidate}
    (walk : layout.Preorder before candidates order) : order.Nodup ∧ ∀ id ∈ order, id ∉ before := by
  induction walk with
  | done => exact ⟨.nil, fun id member => by cases member⟩
  | nothing _ _ ih => exact ih
  | again _ _ _ ih => exact ih
  | @first before below after _ _ _ id _ fresh _ _ _ ih ihRest =>
      obtain ⟨inside, apart⟩ := ih
      obtain ⟨later, apartLater⟩ := ihRest
      have visited : (id :: below).Nodup := List.nodup_cons.2 ⟨fun member =>
        apart id member (List.mem_append_right _ List.mem_cons_self), inside⟩
      refine ⟨List.nodup_append'.2 ⟨visited, later, fun other member member' =>
        apartLater other member' (List.mem_append_right _ member)⟩, fun other member old => ?_⟩
      rcases List.mem_append.1 member with here | there
      · rcases List.mem_cons.1 here with rfl | within
        · exact fresh old
        · exact apart other within (List.mem_append_left _ old)
      · exact apartLater other there (List.mem_append_left _ old)

theorem reaches {before order : List TypeId} {candidates : List Candidate}
    (walk : layout.Preorder before candidates order)
    (leads : ∀ candidate ∈ candidates, layout.Leads origins candidate) :
    ∀ id ∈ order, layout.Reaches origins id := by
  induction walk with
  | done =>
      intro id member
      cases member
  | nothing _ _ ih => exact ih fun candidate member => leads candidate (List.mem_cons_of_mem _ member)
  | again _ _ _ ih => exact ih fun candidate member => leads candidate (List.mem_cons_of_mem _ member)
  | first denotes _ refers _ _ ih ihRest =>
      have here := leads _ List.mem_cons_self
      intro id member
      rcases List.mem_append.1 member with visited | later
      · rcases List.mem_cons.1 visited with rfl | below
        · exact ⟨_, here, denotes⟩
        · exact ih (fun candidate inside => .reference here denotes refers inside) id below
      · exact ihRest (fun candidate inside => leads candidate (List.mem_cons_of_mem _ inside)) id later

/-- A candidate that needs no more visits. -/
def Settles (layout : Layout) (visited : List TypeId) (candidate : Candidate) : Prop :=
  (∃ value, candidate = .other value ∧ value.isNull = true)
    ∨ ∃ id ∈ visited, layout.Denotes candidate id

theorem Settles.mono {visited more : List TypeId} {candidate : Candidate} (grows : visited ⊆ more)
    (settles : Settles layout visited candidate) : Settles layout more candidate :=
  settles.imp_right fun ⟨id, member, denotes⟩ => ⟨id, grows member, denotes⟩

/-- A walk leaves out nothing that it meets. -/
theorem settles {before order : List TypeId} {candidates : List Candidate}
    (walk : layout.Preorder before candidates order) :
    (∀ candidate ∈ candidates, Settles layout (before ++ order) candidate)
      ∧ ∀ id ∈ order, ∃ references, (layout.definition id).references = .ok references
        ∧ ∀ candidate ∈ references, Settles layout (before ++ order) candidate := by
  induction walk with
  | done => exact ⟨(fun candidate member => by cases member), (fun id member => by cases member)⟩
  | nothing null _ ih =>
      exact ⟨List.forall_mem_cons.2 ⟨.inl ⟨_, rfl, null⟩, ih.1⟩, ih.2⟩
  | again denotes member _ ih =>
      exact ⟨List.forall_mem_cons.2
        ⟨.inr ⟨_, List.mem_append_left _ member, denotes⟩, ih.1⟩, ih.2⟩
  | @first before below after candidate references rest id denotes fresh refers _ _ ih ihRest =>
      have joined : before ++ id :: below ++ after = before ++ (id :: below ++ after) :=
        List.append_assoc _ _ _
      rw [joined] at ihRest
      have within : before ++ [id] ++ below ⊆ before ++ (id :: below ++ after) := by
        rw [← joined, List.append_assoc, List.singleton_append]
        exact List.subset_append_left _ _
      refine ⟨List.forall_mem_cons.2 ⟨.inr ⟨id, ?_, denotes⟩, ihRest.1⟩, fun other member => ?_⟩
      · exact List.mem_append_right _ (List.mem_append_left _ List.mem_cons_self)
      · rcases List.mem_append.1 member with visited | later
        · rcases List.mem_cons.1 visited with rfl | inside
          · exact ⟨references, refers, fun candidate member => (ih.1 candidate member).mono within⟩
          · obtain ⟨others, refers', each⟩ := ih.2 other inside
            exact ⟨others, refers', fun candidate member => (each candidate member).mono within⟩
        · exact ihRest.2 other later

theorem settles_of_leads {order : List TypeId} (walk : layout.Preorder [] origins order)
    {candidate : Candidate} (leads : layout.Leads origins candidate) :
    Settles layout order candidate := by
  obtain ⟨starts, below⟩ := walk.settles
  induction leads with
  | origin member => exact starts _ member
  | reference _ denotes refers member ih =>
      rcases ih with ⟨_, rfl, _⟩ | ⟨other, visited, denotes'⟩
      · obtain ⟨_, _, ⟨⟩, _⟩ := denotes
      · cases denotes.unique denotes'
        obtain ⟨_, refers', each⟩ := below _ visited
        cases refers.symm.trans refers'
        exact each _ member

/-- A walk from the origins visits what they reach. -/
theorem mem_iff {order : List TypeId} (walk : layout.Preorder [] origins order) {id : TypeId} :
    id ∈ order ↔ layout.Reaches origins id := by
  refine ⟨walk.reaches (fun candidate member => .origin member) id, ?_⟩
  rintro ⟨candidate, leads, denotes⟩
  rcases walk.settles_of_leads leads with ⟨_, rfl, _⟩ | ⟨other, visited, denotes'⟩
  · obtain ⟨_, _, ⟨⟩, _⟩ := denotes
  · rwa [denotes.unique denotes']

end Preorder

end Layout

namespace Schema

variable {schema : Schema} {origins : List Candidate}

end Schema

end GraphQL
