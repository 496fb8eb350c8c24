import GraphQL.Proofs.LiteralBinding
import GraphQL.Proofs.LiteralValidity
import GraphQL.Proofs.Pinpointing

/-!
The variables of an operation are coerced all or not at all. Every definition at fault is reported by
one error, in the order of the definitions; if none is, exactly the variables that are supplied or have
a default get a value, each one of its type. Only the literal of a default is never reported: where it
is no value of the type, the variable is left undefined.
-/

namespace GraphQL

namespace Value

mutual

/-- Values that a request can supply as text. -/
def isJson : Value → Bool
  | null | bool _ | int _ | float .. | str _ => true
  | list items | growing _ items => allJson items
  | map entries => entriesJson entries
  | _ => false

def allJson : List Value → Bool
  | [] => true
  | item :: rest => item.isJson && allJson rest

def entriesJson : List (Value × Value) → Bool
  | [] => true
  | (key, item) :: rest => key.string?.isSome && item.isJson && entriesJson rest

end

mutual

theorem isRaw_of_isJson (value : Value) (json : value.isJson = true) : value.isRaw = true := by
  match value with
  | .list items | .growing _ items => exact allRaw_of_allJson items json
  | .map entries => exact entriesRaw_of_entriesJson entries json
  | .null | .bool _ | .int _ | .float .. | .str _ => rfl

theorem allRaw_of_allJson (items : List Value) (json : allJson items = true) :
    allRaw items = true := by
  match items with
  | [] => rfl
  | item :: rest =>
      rw [allJson, Bool.and_eq_true] at json
      rw [allRaw, isRaw_of_isJson item json.1, allRaw_of_allJson rest json.2]
      rfl

theorem entriesRaw_of_entriesJson (entries : List (Value × Value))
    (json : entriesJson entries = true) : entriesRaw entries = true := by
  match entries with
  | [] => rfl
  | (key, item) :: rest =>
      rw [entriesJson, Bool.and_eq_true, Bool.and_eq_true] at json
      have text : key.isRaw = true := by
        cases key <;> first | rfl | cases json.1.1
      rw [entriesRaw, text, isRaw_of_isJson item json.1.2, entriesRaw_of_entriesJson rest json.2]
      rfl

end

end Value

namespace Input

variable {σ : Type} {answer : Call → σ → Reply × σ} {layout : Layout} {known : TypeId → Prop}

/-- The functions of leaf types read literals and runtime values as values, or reject them. -/
structure LeavesRead (answer : Call → σ → Reply × σ) (layout : Layout) (known : TypeId → Prop) :
    Prop where
  literals : LeavesReadLiterals answer layout known
  values : ∀ id value, known id → (layout.kindOf id).isLeaf = true → value.isRaw = true →
    value ≠ .null → (layout.parseValue (layout.leafInEffect id) value).Ensures answer Leaf.ReadsValue

theorem LeavesRead.parse (reads : LeavesRead answer layout known) :
    LeavesParse answer layout known := by
  intro id literal vars member leaf some_ plain
  refine (reads.literals id literal vars member leaf some_ plain).mono fun result found => ?_
  exact found.imp_left fun ⟨value, same, present, _⟩ => ⟨value, same, present⟩

theorem LeavesRead.take (reads : LeavesRead answer layout known) :
    LeavesTake answer layout known := by
  intro id value member leaf raw some_
  refine (reads.values id value member leaf raw some_).mono fun result found => ?_
  exact found.imp_left fun ⟨value, same, present, _⟩ => ⟨value, same, present⟩

end Input

namespace Schema

variable {schema : Schema} {found : TypeMap}

end Schema

/-- The definition of a variable is of an input type. -/
def VariableNode.Declares (node : VariableNode) (schema : Schema) (type : TypeRef) : Prop :=
  schema.typeOfNode node.type = .ok (some type) ∧ schema.isInputType type = .ok true

namespace Input

variable {σ : Type} {answer : Call → σ → Reply × σ}

/-- What is at fault with the definition of a variable, by what is supplied in a state of the
application. -/
inductive Offends (answer : Call → σ → Reply × σ) (schema : Schema) (raw : List (Value × Value))
    (node : VariableNode) (state : σ) : VariableProblem → Prop where
  | unknown : schema.typeOfNode node.type = .ok none →
    Offends answer schema raw node state (.notInput node.type.print)
  | noInput {type : TypeRef} : schema.typeOfNode node.type = .ok (some type) →
    schema.isInputType type = .ok false →
    Offends answer schema raw node state (.notInput node.type.print)
  | missing {type : TypeRef} {text : String} : node.Declares schema type →
    Value.lookup? raw (.str node.name) = none → node.default = none → type.isNonNull = true →
    schema.text type = .ok text → Offends answer schema raw node state (.missing text)
  | null {type : TypeRef} {text : String} : node.Declares schema type →
    Value.lookup? raw (.str node.name) = some .null → type.isNonNull = true →
    schema.text type = .ok text → Offends answer schema raw node state (.null text)
  | invalid {type : TypeRef} {value : Value} {fault : InputFault} : node.Declares schema type →
    Value.lookup? raw (.str node.name) = some value → ¬ (value = .null ∧ type.isNonNull = true) →
    (∀ after, ¬ Valid answer schema.toLayout type value state after) →
    value.follow fault.path = some fault.value →
    Offends answer schema raw node state (.invalid fault)

/-- The value that a variable gets, of the type of its definition: what is supplied becomes it, or the
literal of the default is read as it. -/
inductive Gets (answer : Call → σ → Reply × σ) (schema : Schema) (raw : List (Value × Value))
    (node : VariableNode) : σ → TypeRef → Value → σ → Prop where
  | supplied {type : TypeRef} {given value : Value} {state after : σ} : node.Declares schema type →
    Value.lookup? raw (.str node.name) = some given →
    Valid answer schema.toLayout type given state after →
    Becomes answer schema.toLayout type given value →
    Conforms answer schema.toLayout type value → value.isUndefined = false →
    Gets answer schema raw node state type value after
  | preset {type : TypeRef} {literal : Literal} {value : Value} {state after : σ} :
    node.Declares schema type → Value.lookup? raw (.str node.name) = none →
    node.default = some literal → ValidLiteral answer schema.toLayout [] type literal state after →
    Conforms answer schema.toLayout type value → value.isUndefined = false →
    Gets answer schema raw node state type value after

/-- A default is used that is no value of the type. -/
def Spoiled (answer : Call → σ → Reply × σ) (schema : Schema) (raw : List (Value × Value))
    (node : VariableNode) (state : σ) : Prop :=
  ∃ type literal, node.Declares schema type ∧ Value.lookup? raw (.str node.name) = none
    ∧ node.default = some literal
    ∧ ∀ after, ¬ ValidLiteral answer schema.toLayout [] type literal state after

/-- What becomes of the definition of a variable. -/
inductive Settled (answer : Call → σ → Reply × σ) (schema : Schema) (raw : List (Value × Value))
    (node : VariableNode) : σ → Binding → σ → Prop where
  | refused {problem : VariableProblem} {state after : σ} :
    Offends answer schema raw node state problem →
    ((bindVariable schema raw node).run answer state).2 = after →
    Settled answer schema raw node state (.refused problem) after
  | bound {type : TypeRef} {value : Value} {state after : σ} :
    Gets answer schema raw node state type value after →
    Settled answer schema raw node state (.bound value) after
  | spoiled {state after : σ} : Spoiled answer schema raw node state →
    ((bindVariable schema raw node).run answer state).2 = after →
    Settled answer schema raw node state (.bound .undefined) after
  | omitted {type : TypeRef} {state : σ} : node.Declares schema type →
    Value.lookup? raw (.str node.name) = none → node.default = none → type.isNonNull = false →
    Settled answer schema raw node state .omitted state

variable {schema : Schema} {raw : List (Value × Value)} {node : VariableNode} {type : TypeRef}
  {inner : TypeId} {known : TypeId → Prop}

theorem not_valid_null {state after : σ} (required : type.isNonNull = true) :
    ¬ Valid answer layout type .null state after := by
  intro valid
  cases valid with
  | null nullable =>
      rw [required] at nullable
      cases nullable
  | nonNull some_ => exact some_ rfl
  | list sequence => cases sequence
  | single some_ => exact some_ rfl
  | leaf _ some_ => exact some_ rfl

theorem Offends.of_declares {problem : VariableProblem} {state : σ}
    (declares : node.Declares schema type) (offends : Offends answer schema raw node state problem) :
    Value.lookup? raw (.str node.name) = none ∧ node.default = none ∧ type.isNonNull = true
      ∨ ∃ value, Value.lookup? raw (.str node.name) = some value
        ∧ ∀ after, ¬ Valid answer schema.toLayout type value state after := by
  cases offends with
  | unknown denotes => cases declares.1.symm.trans denotes
  | noInput denotes no =>
      cases declares.1.symm.trans denotes
      cases declares.2.symm.trans no
  | missing again absent bare required =>
      cases declares.1.symm.trans again.1
      exact .inl ⟨absent, bare, required⟩
  | null again given required =>
      cases declares.1.symm.trans again.1
      exact .inr ⟨.null, given, fun after => not_valid_null required⟩
  | invalid again given _ never =>
      cases declares.1.symm.trans again.1
      exact .inr ⟨_, given, never⟩

/-- Something is at fault with a definition just if the definition is refused. -/
theorem Settled.offends_iff {state after : σ} {binding : Binding}
    (settled : Settled answer schema raw node state binding after) :
    (∃ problem, Offends answer schema raw node state problem)
      ↔ ∃ problem, binding = .refused problem := by
  cases settled with
  | @refused problem _ _ offends => exact ⟨fun _ => ⟨problem, rfl⟩, fun _ => ⟨problem, offends⟩⟩
  | bound gets =>
      refine ⟨fun ⟨problem, offends⟩ => ?_, fun ⟨_, same⟩ => by cases same⟩
      cases gets with
      | supplied declares given valid =>
          rcases offends.of_declares declares with ⟨absent, _⟩ | ⟨value, again, never⟩
          · cases given.symm.trans absent
          · cases given.symm.trans again
            exact (never _ valid).elim
      | preset declares absent preset =>
          rcases offends.of_declares declares with ⟨_, bare, _⟩ | ⟨value, given, _⟩
          · cases preset.symm.trans bare
          · cases given.symm.trans absent
  | spoiled spoiled =>
      refine ⟨fun ⟨problem, offends⟩ => ?_, fun ⟨_, same⟩ => by cases same⟩
      obtain ⟨type, literal, declares, absent, preset, _⟩ := spoiled
      rcases offends.of_declares declares with ⟨_, bare, _⟩ | ⟨value, given, _⟩
      · cases preset.symm.trans bare
      · cases given.symm.trans absent
  | omitted declares absent bare nullable =>
      refine ⟨fun ⟨problem, offends⟩ => ?_, fun ⟨_, same⟩ => by cases same⟩
      rcases offends.of_declares declares with ⟨_, _, required⟩ | ⟨value, given, _⟩
      · cases nullable.symm.trans required
      · cases given.symm.trans absent

/-- What becomes of definitions, one after the other. -/
inductive AllSettled (answer : Call → σ → Reply × σ) (schema : Schema)
    (raw : List (Value × Value)) : List VariableNode → List Binding → σ → σ → Prop where
  | nil {state : σ} : AllSettled answer schema raw [] [] state state
  | cons {node : VariableNode} {rest : List VariableNode} {binding : Binding}
      {bindings : List Binding} {state middle after : σ} :
    Settled answer schema raw node state binding middle →
    AllSettled answer schema raw rest bindings middle after →
    AllSettled answer schema raw (node :: rest) (binding :: bindings) state after

/-- The errors of the definitions that are refused, in their order. -/
def refusals : List VariableNode → List Binding → List ResponseError
  | node :: rest, .refused problem :: bindings => variableError node problem :: refusals rest bindings
  | _ :: rest, _ :: bindings => refusals rest bindings
  | _, _ => []

/-- The values of the definitions that are bound, put one after the other. -/
def putBound (made : Variables) : List VariableNode → List Binding → Variables
  | node :: rest, .bound value :: bindings =>
    putBound (putVariable made node.name value) rest bindings
  | _ :: rest, _ :: bindings => putBound made rest bindings
  | _, _ => made

/-- What a run comes to. -/
def coerced (made : Variables) (errors : List ResponseError) (nodes : List VariableNode)
    (bindings : List Binding) : Except (List ResponseError) Variables :=
  if errors ++ refusals nodes bindings = [] then .ok (putBound made nodes bindings)
  else .error (errors ++ refusals nodes bindings)

/-- A variable is supplied or has a default. -/
def IsGiven (raw : List (Value × Value)) (node : VariableNode) : Prop :=
  (Value.lookup? raw (.str node.name)).isSome = true ∨ node.default.isSome = true

theorem Settled.isGiven_iff {state after : σ} {binding : Binding}
    (settled : Settled answer schema raw node state binding after)
    (kept : ∀ problem, binding ≠ .refused problem) :
    IsGiven raw node ↔ ∃ value, binding = .bound value := by
  cases settled with
  | refused => exact (kept _ rfl).elim
  | @bound _ value _ _ gets =>
      refine ⟨fun _ => ⟨value, rfl⟩, fun _ => ?_⟩
      cases gets with
      | supplied _ given => exact .inl (by rw [given]; rfl)
      | preset _ _ preset => exact .inr (by rw [preset]; rfl)
  | spoiled spoiled =>
      obtain ⟨type, literal, _, _, preset, _⟩ := spoiled
      exact ⟨fun _ => ⟨.undefined, rfl⟩, fun _ => .inr (by rw [preset]; rfl)⟩
  | omitted _ absent bare =>
      refine ⟨fun given => ?_, fun ⟨_, same⟩ => by cases same⟩
      rcases given with given | given
      · rw [absent] at given
        cases given
      · rw [bare] at given
        cases given

theorem keys_putVariable (vars : Variables) (name : String) (value : Value) (looked : String) :
    looked ∈ (putVariable vars name value).map (·.1) ↔ looked = name ∨ looked ∈ vars.map (·.1) := by
  induction vars with
  | nil => simp [putVariable]
  | cons entry rest ih =>
      obtain ⟨key, old⟩ := entry
      rw [putVariable]
      split
      · next same => simp [same]
      · simp only [List.map_cons, List.mem_cons, ih]
        exact or_left_comm

section Kept

variable {nodes : List VariableNode} {bindings : List Binding} {made : Variables} {state after : σ}

theorem AllSettled.keys (settled : AllSettled answer schema raw nodes bindings state after)
    (kept : refusals nodes bindings = []) (name : String) :
    name ∈ (putBound made nodes bindings).map (·.1)
      ↔ name ∈ made.map (·.1) ∨ ∃ node ∈ nodes, node.name = name ∧ IsGiven raw node := by
  induction settled generalizing made with
  | nil => simp [putBound]
  | @cons node rest binding bindings state middle after here _ ih =>
      cases binding with
      | refused problem => cases kept
      | bound value =>
          have given := (here.isGiven_iff (by simp)).2 ⟨value, rfl⟩
          rw [putBound, ih kept, keys_putVariable]
          simp only [List.exists_mem_cons_iff, given, and_true, eq_comm, or_assoc, or_left_comm]
      | omitted =>
          have absent := mt (here.isGiven_iff (by simp)).1 (by simp)
          rw [show putBound made (node :: rest) (.omitted :: bindings) = putBound made rest bindings
            from rfl, ih kept]
          simp only [List.exists_mem_cons_iff, absent, and_false, false_or]

/-- A variable holds a value of the type of its definition, or it is undefined because its default is
spoiled. -/
def Holds (answer : Call → σ → Reply × σ) (schema : Schema) (raw : List (Value × Value))
    (node : VariableNode) (value : Value) : Prop :=
  (∃ type, node.Declares schema type ∧ Conforms answer schema.toLayout type value
      ∧ value.isUndefined = false ∧ (type.isNonNull = true → value ≠ .null))
    ∨ value = .undefined ∧ ∃ state, Spoiled answer schema raw node state

theorem not_null_of_conforms {value : Value} (conforms : Conforms answer layout type value)
    (required : type.isNonNull = true) : value ≠ .null := by
  cases conforms with
  | nonNull some_ => exact some_
  | null nullable =>
      rw [required] at nullable
      cases nullable
  | list | object | leaf => cases required

theorem holds_of_settled {value : Value}
    (settled : Settled answer schema raw node state (.bound value) after) :
    Holds answer schema raw node value := by
  cases settled with
  | bound gets =>
      cases gets with
      | supplied declares _ _ _ conforms defined | preset declares _ _ _ conforms defined =>
          exact .inl ⟨_, declares, conforms, defined, not_null_of_conforms conforms⟩
  | spoiled spoiled => exact .inr ⟨rfl, state, spoiled⟩

/-- What a variable holds was put by the last definition of its name that puts something. -/
def PutLast (answer : Call → σ → Reply × σ) (schema : Schema) (raw : List (Value × Value))
    (nodes : List VariableNode) (name : String) (value : Value) : Prop :=
  ∃ before node later, nodes = before ++ node :: later ∧ node.name = name
    ∧ (∀ other ∈ later, other.name = name → ¬ IsGiven raw other)
    ∧ Holds answer schema raw node value

theorem AllSettled.values (settled : AllSettled answer schema raw nodes bindings state after)
    (kept : refusals nodes bindings = []) {name : String} {value : Value}
    (held : (putBound made nodes bindings).lookup name = some value) :
    (made.lookup name = some value ∧ ∀ node ∈ nodes, node.name = name → ¬ IsGiven raw node)
      ∨ PutLast answer schema raw nodes name value := by
  induction settled generalizing made with
  | nil =>
      refine .inl ⟨held, fun node inside => ?_⟩
      cases inside
  | @cons node rest binding bindings state middle after here _ ih =>
      cases binding with
      | refused problem => cases kept
      | bound bound =>
          rcases ih kept held with ⟨put, none_⟩ | ⟨before, last, later, rfl, named, none_, holds⟩
          · rw [lookup_putVariable] at put
            by_cases same : node.name = name
            · rw [if_pos same] at put
              cases put
              exact .inr ⟨[], node, rest, rfl, same, none_, holds_of_settled here⟩
            · rw [if_neg same] at put
              refine .inl ⟨put, fun other inside named => ?_⟩
              rcases List.mem_cons.1 inside with rfl | inside
              · exact (same named).elim
              · exact none_ other inside named
          · exact .inr ⟨node :: before, last, later, rfl, named, none_, holds⟩
      | omitted =>
          have absent := mt (here.isGiven_iff (by simp)).1 (by simp)
          rcases ih kept held with ⟨put, none_⟩ | ⟨before, last, later, rfl, named, none_, holds⟩
          · refine .inl ⟨put, fun other inside named => ?_⟩
            rcases List.mem_cons.1 inside with rfl | inside
            · exact absent
            · exact none_ other inside named
          · exact .inr ⟨node :: before, last, later, rfl, named, none_, holds⟩

end Kept

end Input

namespace Leaf

end Leaf

namespace Schema

def treeNode : VariableNode := ⟨0, "tree", .nonNull (.named 0 "Tree"), none⟩

/-- A tree is supplied, a size has a default and another size may be left out. -/
def growing : Operation :=
  ⟨0, .query, none, [treeNode, ⟨1, "size", .named 1 "Int", some (.int 1 "3")⟩,
    ⟨2, "age", .named 2 "Int", none⟩], [], []⟩

/-- A type that takes no input, a size that is required, and a tree. -/
def faulty : Operation :=
  ⟨0, .query, none, [⟨1, "root", .named 1 "Query", none⟩,
    ⟨2, "size", .nonNull (.named 2 "Int"), none⟩, treeNode], [], []⟩

def grown : Variables :=
  [("tree", .map [(.str "label", .str "oak"), (.str "size", .int 1),
      (.str "children", .list [.map [(.str "label", .str "elm"), (.str "size", .int 1)]])]),
    ("size", .int 3)]

end Schema

end GraphQL
