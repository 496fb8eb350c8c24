import GraphQL.Input.Variables
import GraphQL.Proofs.Accepted
import Mathlib

/-!
Input types and what reading one comes to. An input type leads only to leaf types and to types with
fields whose own types are worked out. Where fields are declared under texts, what a document writes
under a name and what a map holds under it are found alike.
-/

namespace GraphQL

namespace Action

variable {σ α β : Type} {answer : Call → σ → Reply × σ}

/-- What an action comes to, whatever the state that it starts in. -/
def Ensures (answer : Call → σ → Reply × σ) (action : Action α)
    (post : Except Failure α → Prop) : Prop :=
  ∀ state, post (action.run answer state).1

theorem ensures_done {post : Except Failure α → Prop} (result : Except Failure α)
    (holds : post result) : (done result).Ensures answer post :=
  fun _ => holds

theorem Ensures.mono {action : Action α} {post weaker : Except Failure α → Prop}
    (ensures : action.Ensures answer post) (weaken : ∀ result, post result → weaker result) :
    action.Ensures answer weaker :=
  fun state => weaken _ (ensures state)

theorem ensures_andThen {action : Action α} {next : Except Failure α → Action β}
    {middle : Except Failure α → Prop} {post : Except Failure β → Prop}
    (first : action.Ensures answer middle)
    (second : ∀ result, middle result → (next result).Ensures answer post) :
    (action.andThen next).Ensures answer post := by
  intro state
  rw [run_andThen]
  exact second _ (first state) _

theorem ensures_bind {action : Action α} {next : α → Action β} {middle : Except Failure α → Prop}
    {post : Except Failure β → Prop} (first : action.Ensures answer middle)
    (second : ∀ value, middle (.ok value) → (next value).Ensures answer post)
    (failed : ∀ failure, middle (.error failure) → post (.error failure)) :
    (action >>= next).Ensures answer post := by
  refine ensures_andThen first fun result holds => ?_
  cases result with
  | ok value => exact second value holds
  | error failure => exact ensures_done _ (failed failure holds)

theorem ensures_bind_any {action : Action α} {next : α → Action β} {post : Except Failure β → Prop}
    (second : ∀ value, (next value).Ensures answer post)
    (failed : ∀ failure, post (.error failure)) : (action >>= next).Ensures answer post :=
  have anything : action.Ensures answer fun _ => True := fun _ => trivial
  ensures_bind anything (fun value _ => second value) fun failure _ => failed failure

/-- An action that comes to one result in every state. -/
abbrev Settles (answer : Call → σ → Reply × σ) (action : Action α) (result : Except Failure α) :
    Prop :=
  action.Ensures answer (· = result)

theorem settles_bind {action : Action α} {next : α → Action β} {value : α}
    {post : Except Failure β → Prop} (first : action.Settles answer (.ok value))
    (second : (next value).Ensures answer post) : (action >>= next).Ensures answer post :=
  ensures_bind first (fun found same => by cases same; exact second)
    fun failure same => by cases same

theorem run_bind_ok {action : Action α} {next : α → Action β} {value : α} {state after : σ}
    (ran : action.run answer state = (.ok value, after)) :
    (action >>= next).run answer state = (next value).run answer after := by
  refine (run_andThen answer action _ state).trans ?_
  rw [ran]

theorem run_bind_error {action : Action α} {next : α → Action β} {failure : Failure} {state : σ}
    (failed : (action.run answer state).1 = .error failure) :
    ((action >>= next).run answer state).1 = .error failure := by
  refine (congrArg Prod.fst (run_andThen answer action _ state)).trans ?_
  rw [failed]
  rfl

end Action

/-- An input whose type leads to a known one. -/
def InputValue.Declares (known : TypeId → Prop) (input : InputValue) : Prop :=
  ∃ type inner, input.type = .ok type ∧ type.innermost = .ok inner ∧ known inner

/-- The named types that an input type leads to. -/
structure InputTypes (layout : Layout) (known : TypeId → Prop) : Prop where
  name : ∀ id, known id → ∃ text, (layout.definition id).name = .str text
  shape : ∀ id, known id → (layout.kindOf id).isLeaf = true
    ∨ ∃ fields, (layout.definition id).body = .input (.ok fields)
      ∧ ∀ entry ∈ fields.entries, InputValue.Declares known entry.2

theorem Layout.catalog_name (layout : Layout) (id : TypeId) :
    layout.catalog.name id = (layout.definition id).name := by
  cases id with
  | standard scalar => rfl
  | declared index =>
      simp only [catalog, Catalog.name, definition, Array.getElem?_map]
      cases layout.types[index]? <;> rfl

theorem InputTypes.text {layout : Layout} {known : TypeId → Prop} (types : InputTypes layout known)
    (type : TypeRef) (inner : TypeId) (leads : type.innermost = .ok inner) (member : known inner) :
    ∃ text, layout.text type = .ok text := by
  induction type with
  | named id =>
      cases leads
      obtain ⟨text, named⟩ := types.name inner member
      refine ⟨text, ?_⟩
      simp only [Layout.text, Catalog.text, layout.catalog_name, named]
  | list of ih =>
      obtain ⟨text, written⟩ := ih leads
      refine ⟨"[" ++ text ++ "]", ?_⟩
      simp only [Layout.text, Catalog.text] at written ⊢
      rw [written]
      rfl
  | nonNull of ih =>
      obtain ⟨text, written⟩ := ih leads
      refine ⟨text ++ "!", ?_⟩
      simp only [Layout.text, Catalog.text] at written ⊢
      rw [written]
      rfl
  | broken fault => cases leads

namespace Value

variable {α : Type}

@[simp]
theorem isKey_str (left right : String) :
    (Value.str left).isKey (.str right) = decide (left = right) := by
  have same := equals_str left right
  rw [isKey]
  by_cases equal : left = right
  · rw [same.2 equal, Bool.or_true, decide_eq_true equal]
  · rw [Bool.eq_false_iff.2 (mt same.1 equal), Bool.or_false, decide_eq_false equal]
    simp [identical, equal]

/-- Entries under texts only. -/
def UnderTexts (entries : List (Value × α)) : Prop :=
  ∀ entry ∈ entries, ∃ key, entry.1 = .str key

theorem underTexts_putEntry {entries : List (Value × α)} (texts : UnderTexts entries) (key : String)
    (value : α) : UnderTexts (putEntry entries (.str key) value) := by
  intro entry member
  rcases Table.mem_putEntry member with ⟨old, before⟩ | rfl
  · exact texts (entry.1, old) before
  · exact ⟨key, rfl⟩

/-- What entries make of others, put one after the other. -/
def putAll (made entries : List (Value × α)) : List (Value × α) :=
  entries.foldl (fun made entry => putEntry made entry.1 entry.2) made

theorem lookup?_cons_str (found key : String) (value : α) (rest : List (Value × α)) :
    lookup? ((.str found, value) :: rest) (.str key)
      = if found = key then some value else lookup? rest (.str key) := by
  simp only [lookup?, List.find?_cons, isKey_str]
  by_cases same : found = key <;> simp [same]

theorem lookup?_putEntry_str {entries : List (Value × α)} (texts : UnderTexts entries)
    (key looked : String) (value : α) :
    lookup? (putEntry entries (.str key) value) (.str looked)
      = if key = looked then some value else lookup? entries (.str looked) := by
  induction entries with
  | nil => rw [putEntry, lookup?_cons_str]
  | cons entry rest ih =>
      obtain ⟨found, old⟩ := entry
      obtain ⟨text, rfl⟩ := texts _ List.mem_cons_self
      have later := ih fun other inside => texts other (List.mem_cons_of_mem _ inside)
      rw [putEntry, isKey_str]
      by_cases same : text = key
      · simp only [same, decide_true, if_true, lookup?_cons_str]
        split <;> rfl
      · simp only [same, decide_false, Bool.false_eq_true, if_false, lookup?_cons_str, later]
        by_cases here : text = looked
        · have other : key ≠ looked := fun again => same (here.trans again.symm)
          simp [here, other]
        · simp [here]

theorem isSome_lookup?_str {entries : List (Value × α)} (texts : UnderTexts entries)
    (key : String) :
    (lookup? entries (.str key)).isSome = true ↔ Value.str key ∈ entries.map (·.1) := by
  induction entries with
  | nil => exact ⟨(fun found => by cases found), (fun inside => by cases inside)⟩
  | cons entry rest ih =>
      obtain ⟨found, value⟩ := entry
      obtain ⟨text, rfl⟩ := texts _ List.mem_cons_self
      have later := ih fun other inside => texts other (List.mem_cons_of_mem _ inside)
      rw [lookup?_cons_str, List.map_cons, List.mem_cons]
      by_cases same : text = key
      · simp [same]
      · rw [if_neg same, later]
        refine ⟨.inr, fun either => either.resolve_left ?_⟩
        rintro ⟨⟩
        exact same rfl

end Value

/-- Input types whose fields are declared under texts. -/
structure TextInputTypes (layout : Layout) (known : TypeId → Prop) : Prop
    extends InputTypes layout known where
  texts : ∀ id fields, known id → (layout.definition id).body = .input (.ok fields) →
    Value.UnderTexts fields.entries

namespace Input

variable {σ : Type} {answer : Call → σ → Reply × σ} {layout : Layout} {vars : Variables}

theorem worked_bind {α β : Type} {result : Checked α} {value : α} (worked : result = .ok value)
    (next : α → Action β) : ((liftM result : Action α) >>= next) = next value := by
  rw [worked]
  rfl

theorem settles_text {text : String} {type : TypeRef} (written : layout.text type = .ok text) :
    (liftM (layout.text type) : Action String).Settles answer (.ok text) :=
  Action.ensures_done _ written

theorem readNamed_leaf {literal : Literal} {parts : Parts} {id : TypeId}
    (leaf : (layout.kindOf id).isLeaf = true) :
    readNamed layout vars literal parts id = readLeaf layout vars literal id := by
  unfold readNamed
  unfold Layout.kindOf TypeDef.kind at leaf
  cases body : (layout.definition id).body with
  | scalar rule => rfl
  | enum values => rfl
  | _ =>
      rw [body] at leaf
      cases leaf

theorem lookup_fieldReaders (fields : List (String × Literal)) (key : String) :
    (fieldReaders layout vars fields).reverse.lookup key
      = (fields.reverse.lookup key).map fun literal =>
        ⟨isMissing vars literal, readLiteral layout vars literal⟩ := by
  induction fields with
  | nil => rfl
  | cons field rest ih =>
      obtain ⟨name, literal⟩ := field
      rw [fieldReaders, List.reverse_cons, List.reverse_cons, List.lookup_append,
        List.lookup_append, ih]
      cases rest.reverse.lookup key with
      | some found => rfl
      | none =>
          simp only [List.lookup, Option.map_none, Option.none_or]
          cases key == name <;> rfl

theorem mem_of_lookup_reverse {fields : List (String × Literal)} {key : String} {literal : Literal}
    (found : fields.reverse.lookup key = some literal) : (key, literal) ∈ fields := by
  obtain ⟨before, after, parts, _⟩ := List.lookup_eq_some_iff.1 found
  rw [← List.mem_reverse, parts]
  exact List.mem_append_right _ List.mem_cons_self

/-- An argument is written with a literal; of an argument given twice the last one counts. -/
def GivenAs (given : List ArgumentNode) (name : Value) (literal : Literal) : Prop :=
  ∃ node, (given.reverse.find? fun found => name.equals (.str found.name)) = some node
    ∧ node.value = literal

end Input

end GraphQL
