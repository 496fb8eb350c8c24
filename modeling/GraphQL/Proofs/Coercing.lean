import GraphQL.Proofs.ArgumentTypes
import GraphQL.Proofs.LiteralValues
import GraphQL.Proofs.Preparing

/-!
What runtime values are coerced to. Which values an input type takes, and what they become, is said by
recursion on the parts of the value, without a word on paths. Each form of type is then shown to decide
just that, and to blame a part of the value that the path of its error leads to.
-/

namespace GraphQL

namespace Value

mutual

/-- Values that are built from scalars, lists, tuples and maps. -/
def isRaw : Value → Bool
  | null | bool _ | int _ | float .. | str _ | bytes _ | decimal .. | date _ | timestamp _
  | member .. => true
  | list items | growing _ items | tuple items => allRaw items
  | map entries => entriesRaw entries
  | _ => false

def allRaw : List Value → Bool
  | [] => true
  | item :: rest => item.isRaw && allRaw rest

def entriesRaw : List (Value × Value) → Bool
  | [] => true
  | (key, item) :: rest => key.isRaw && item.isRaw && entriesRaw rest

end

/-- The items of a list or a tuple. -/
def sequence? : Value → Option (List Value)
  | list items | growing _ items | tuple items => some items
  | _ => none

/-- The part of a value under a key: an item by its index, or what a map holds under a name. -/
def part? (value : Value) : PathKey → Option Value
  | .index (.ofNat position) => value.sequence?.bind fun items => items[position]?
  | .index (.negSucc _) => none
  | .name key => value.entries?.bind fun entries => lookup? entries (.str key)

/-- The part of a value that a path leads to. -/
def follow : Value → List PathKey → Option Value
  | value, [] => some value
  | value, key :: rest => (value.part? key).bind fun part => part.follow rest

theorem follow_index {value item : Value} {items : List Value} {position : Nat}
    (sequence : value.sequence? = some items) (found : items[position]? = some item)
    (rest : List PathKey) : value.follow (.index position :: rest) = item.follow rest := by
  have part : value.part? (.index position) = some item := by
    simp only [part?, sequence, Option.bind_some]
    exact found
  rw [follow, part, Option.bind_some]

theorem follow_name {entries : List (Value × Value)} {key : String} {item : Value}
    (found : lookup? entries (.str key) = some item) (rest : List PathKey) :
    (map entries).follow (.name key :: rest) = item.follow rest := by
  have part : (map entries).part? (.name key) = some item := found
  rw [follow, part, Option.bind_some]

theorem text_of_isRaw {value : Value} (raw : value.isRaw = true) :
    ∃ text, value.text = .ok text := by
  cases value <;> first | exact ⟨_, rfl⟩ | cases raw

theorem keys_isRaw {entries : List (Value × Value)} (raw : entriesRaw entries = true) :
    ∀ entry ∈ entries, entry.1.isRaw = true := by
  induction entries with
  | nil =>
      intro entry inside
      cases inside
  | cons first rest ih =>
      obtain ⟨key, item⟩ := first
      rw [entriesRaw, Bool.and_eq_true, Bool.and_eq_true] at raw
      intro entry inside
      rcases List.mem_cons.1 inside with rfl | later
      · exact raw.1.1
      · exact ih raw.2 entry later

end Value

namespace Input

section Specification

variable {σ : Type}

mutual

/-- The values that an input type takes. Its leaf types may go by what they were asked before, so the
application is in one state at the beginning and in another at the end. -/
inductive Valid (answer : Call → σ → Reply × σ) (layout : Layout) :
    TypeRef → Value → σ → σ → Prop where
  | null {type : TypeRef} {state : σ} : type.isNonNull = false →
    Valid answer layout type .null state state
  | nonNull {of : TypeRef} {value : Value} {state after : σ} : value ≠ .null →
    Valid answer layout of value state after → Valid answer layout (.nonNull of) value state after
  | list {of : TypeRef} {value : Value} {items : List Value} {state after : σ} :
    value.sequence? = some items → AllValid answer layout of items state after →
    Valid answer layout (.list of) value state after
  | single {of : TypeRef} {value : Value} {state after : σ} : value ≠ .null →
    value.sequence? = none → Valid answer layout of value state after →
    Valid answer layout (.list of) value state after
  | object {id : TypeId} {declared : Table InputValue} {given : List (Value × Value)}
      {state after : σ} : (layout.definition id).body = .input (.ok declared) →
    FieldsValid answer layout declared.entries given state after →
    (∀ entry ∈ given, declared.contains entry.1 = true) →
    Valid answer layout (.named id) (.map given) state after
  | leaf {id : TypeId} {value parsed : Value} {state after : σ} :
    (layout.kindOf id).isLeaf = true → value ≠ .null →
    (layout.parseValue (layout.leafInEffect id) value).run answer state = (.ok parsed, after) →
    Valid answer layout (.named id) value state after

inductive AllValid (answer : Call → σ → Reply × σ) (layout : Layout) :
    TypeRef → List Value → σ → σ → Prop where
  | nil {type : TypeRef} {state : σ} : AllValid answer layout type [] state state
  | cons {type : TypeRef} {item : Value} {rest : List Value} {state middle after : σ} :
    Valid answer layout type item state middle → AllValid answer layout type rest middle after →
    AllValid answer layout type (item :: rest) state after

/-- What a map gives for the declared fields: only what has a default or may be null is left out. -/
inductive FieldsValid (answer : Call → σ → Reply × σ) (layout : Layout) :
    List (Value × InputValue) → List (Value × Value) → σ → σ → Prop where
  | nil {given : List (Value × Value)} {state : σ} : FieldsValid answer layout [] given state state
  | given {name item : Value} {input : InputValue} {type : TypeRef}
      {rest : List (Value × InputValue)} {given : List (Value × Value)} {state middle after : σ} :
    Value.lookup? given name = some item → input.type = .ok type →
    Valid answer layout type item state middle →
    FieldsValid answer layout rest given middle after →
    FieldsValid answer layout ((name, input) :: rest) given state after
  | omitted {name : Value} {input : InputValue} {rest : List (Value × InputValue)}
      {given : List (Value × Value)} {state after : σ} :
    Value.lookup? given name = none →
    (input.hasDefault = true ∨ ∃ type, input.type = .ok type ∧ type.isNonNull = false) →
    FieldsValid answer layout rest given state after →
    FieldsValid answer layout ((name, input) :: rest) given state after

end

mutual

/-- What a value becomes: its leaves are read, single values are items of lists, and the fields of
objects are in the order of their declaration, with the defaults of those that are not given. -/
inductive Becomes (answer : Call → σ → Reply × σ) (layout : Layout) :
    TypeRef → Value → Value → Prop where
  | null {type : TypeRef} : type.isNonNull = false → Becomes answer layout type .null .null
  | nonNull {of : TypeRef} {value result : Value} : value ≠ .null →
    Becomes answer layout of value result → Becomes answer layout (.nonNull of) value result
  | list {of : TypeRef} {value : Value} {items results : List Value} :
    value.sequence? = some items → AllBecome answer layout of items results →
    Becomes answer layout (.list of) value (.list results)
  | single {of : TypeRef} {value result : Value} : value ≠ .null → value.sequence? = none →
    Becomes answer layout of value result → Becomes answer layout (.list of) value (.list [result])
  | object {id : TypeId} {declared : Table InputValue} {given made : List (Value × Value)} :
    (layout.definition id).body = .input (.ok declared) →
    FieldsBecome answer layout declared.entries given made →
    Becomes answer layout (.named id) (.map given) (.map made)
  | leaf {id : TypeId} {value parsed : Value} {state : σ} :
    (layout.kindOf id).isLeaf = true → value ≠ .null →
    ((layout.parseValue (layout.leafInEffect id) value).run answer state).1 = .ok parsed →
    Becomes answer layout (.named id) value parsed

inductive AllBecome (answer : Call → σ → Reply × σ) (layout : Layout) :
    TypeRef → List Value → List Value → Prop where
  | nil {type : TypeRef} : AllBecome answer layout type [] []
  | cons {type : TypeRef} {item result : Value} {rest results : List Value} :
    Becomes answer layout type item result → AllBecome answer layout type rest results →
    AllBecome answer layout type (item :: rest) (result :: results)

inductive FieldsBecome (answer : Call → σ → Reply × σ) (layout : Layout) :
    List (Value × InputValue) → List (Value × Value) → List (Value × Value) → Prop where
  | nil {given : List (Value × Value)} : FieldsBecome answer layout [] given []
  | given {name item result : Value} {input : InputValue} {type : TypeRef}
      {rest : List (Value × InputValue)} {given made : List (Value × Value)} :
    Value.lookup? given name = some item → input.type = .ok type →
    Becomes answer layout type item result → FieldsBecome answer layout rest given made →
    FieldsBecome answer layout ((name, input) :: rest) given ((name, result) :: made)
  | preset {name : Value} {input : InputValue} {rest : List (Value × InputValue)}
      {given made : List (Value × Value)} :
    Value.lookup? given name = none → input.hasDefault = true →
    FieldsBecome answer layout rest given made →
    FieldsBecome answer layout ((name, input) :: rest) given ((name, input.default) :: made)
  | absent {name : Value} {input : InputValue} {rest : List (Value × InputValue)}
      {given made : List (Value × Value)} :
    Value.lookup? given name = none → input.hasDefault = false →
    FieldsBecome answer layout rest given made →
    FieldsBecome answer layout ((name, input) :: rest) given made

end

/-- Bytes stand somewhere where a list is expected. -/
inductive Splits (layout : Layout) : TypeRef → Value → Prop where
  | here {of : TypeRef} {content : List UInt8} : Splits layout (.list of) (.bytes content)
  | nonNull {of : TypeRef} {value : Value} : Splits layout of value →
    Splits layout (.nonNull of) value
  | item {of : TypeRef} {value item : Value} {items : List Value} :
    value.sequence? = some items → item ∈ items → Splits layout of item →
    Splits layout (.list of) value
  | single {of : TypeRef} {value : Value} : value.sequence? = none → Splits layout of value →
    Splits layout (.list of) value
  | field {id : TypeId} {declared : Table InputValue} {given : List (Value × Value)}
      {name item : Value} {input : InputValue} {type : TypeRef} :
    (layout.definition id).body = .input (.ok declared) → (name, input) ∈ declared.entries →
    input.type = .ok type → Value.lookup? given name = some item → Splits layout type item →
    Splits layout (.named id) (.map given)

/-- The functions of leaf types read a value that is not null as something, or reject it. -/
def LeavesTake (answer : Call → σ → Reply × σ) (layout : Layout) (known : TypeId → Prop) : Prop :=
  ∀ id value, known id → (layout.kindOf id).isLeaf = true → value.isRaw = true → value ≠ .null →
    (layout.parseValue (layout.leafInEffect id) value).Ensures answer Leaf.Reads

/-- A value is taken by a type, and becomes the result. -/
structure Taken (answer : Call → σ → Reply × σ) (layout : Layout) (type : TypeRef) (value : Value)
    (state : σ) (result : Value) (after : σ) : Prop where
  valid : Valid answer layout type value state after
  only : ∀ last, Valid answer layout type value state last → last = after
  conforms : Conforms answer layout type result
  becomes : Becomes answer layout type value result
  present : value ≠ .null → result ≠ .null

/-- A value is not taken by a type, and the part that is blamed is where the path leads. -/
structure Blamed (answer : Call → σ → Reply × σ) (layout : Layout) (type : TypeRef) (value : Value)
    (path : List PathKey) (state : σ) (fault : InputFault) : Prop where
  invalid : ∀ after, ¬ Valid answer layout type value state after
  located : ∃ rest, fault.path = path ++ rest ∧ value.follow rest = some fault.value

/-- An action tells whether a value is taken by a type. -/
def Decides (answer : Call → σ → Reply × σ) (layout : Layout) (type : TypeRef) (value : Value)
    (path : List PathKey) (action : Action Value) : Prop :=
  ∀ state, (∃ result after, action.run answer state = (.ok result, after)
      ∧ Taken answer layout type value state result after)
    ∨ ∃ fault, (action.run answer state).1 = .error (.input fault)
      ∧ Blamed answer layout type value path state fault

/-- The coercion of a value tells by which types it is taken. -/
def DecidesAll (answer : Call → σ → Reply × σ) (layout : Layout) (known : TypeId → Prop)
    (value : Value) : Prop :=
  ∀ type inner path, type.innermost = .ok inner → known inner → ¬ Splits layout type value →
    Decides answer layout type value path (coerce layout value type path)

end Specification

variable {σ : Type} {answer : Call → σ → Reply × σ} {layout : Layout} {known : TypeId → Prop}
  {type of : TypeRef} {value : Value} {path : List PathKey} {action : Action Value}

theorem decides_invalid (problem : InputProblem) (path : List PathKey)
    (never : ∀ state after, ¬ Valid answer layout type value state after) :
    Decides answer layout type value path (invalid problem path value) := fun state =>
  .inr ⟨_, rfl, never state, [], (List.append_nil path).symm, rfl⟩

theorem decides_null (nullable : type.isNonNull = false) :
    Decides answer layout type .null path (return .null) := by
  intro state
  refine .inl ⟨.null, state, rfl, .null nullable, fun last valid => ?_, .null nullable,
    .null nullable, id⟩
  cases valid with
  | null => rfl
  | nonNull some_ => exact absurd rfl some_
  | list sequence => cases sequence
  | single some_ => exact absurd rfl some_
  | leaf _ some_ => exact absurd rfl some_

theorem decides_nonNull (some_ : value ≠ .null)
    (decides : Decides answer layout of value path action) :
    Decides answer layout (.nonNull of) value path action := by
  have valid_of : ∀ {state after}, Valid answer layout (.nonNull of) value state after →
      Valid answer layout of value state after := by
    intro state after valid
    cases valid with
    | null nullable => cases nullable
    | nonNull _ valid => exact valid
  intro state
  rcases decides state with ⟨result, after, ran, taken⟩ | ⟨fault, failed, blamed⟩
  · exact .inl ⟨result, after, ran, .nonNull some_ taken.valid,
      fun last valid => taken.only last (valid_of valid),
      .nonNull (taken.present some_) taken.conforms, .nonNull some_ taken.becomes, taken.present⟩
  · exact .inr ⟨fault, failed, fun after valid => blamed.invalid after (valid_of valid),
      blamed.located⟩

/-- A single value is decided like the list of it. -/
theorem decides_single (some_ : value ≠ .null) (single : value.sequence? = none)
    (decides : Decides answer layout of value path action) :
    Decides answer layout (.list of) value path (do return .list [← action]) := by
  have valid_of : ∀ {state after}, Valid answer layout (.list of) value state after →
      Valid answer layout of value state after := by
    intro state after valid
    cases valid with
    | null => exact absurd rfl some_
    | list sequence =>
        rw [single] at sequence
        cases sequence
    | single _ _ valid => exact valid
  intro state
  rcases decides state with ⟨result, after, ran, taken⟩ | ⟨fault, failed, blamed⟩
  · refine .inl ⟨.list [result], after, Action.run_bind_ok ran, .single some_ single taken.valid,
      fun last valid => taken.only last (valid_of valid), .list rfl fun item inside => ?_,
      .single some_ single taken.becomes, fun _ => by rintro ⟨⟩⟩
    rw [List.mem_singleton.1 inside]
    exact taken.conforms
  · exact .inr ⟨fault, Action.run_bind_error failed,
      fun after valid => blamed.invalid after (valid_of valid), blamed.located⟩

section Leaves

variable {id : TypeId}

theorem valid_leaf_iff (leaf : (layout.kindOf id).isLeaf = true) (some_ : value ≠ .null)
    (state after : σ) :
    Valid answer layout (.named id) value state after
      ↔ ∃ parsed, (layout.parseValue (layout.leafInEffect id) value).run answer state
        = (.ok parsed, after) := by
  constructor
  · intro valid
    cases valid with
    | null => exact absurd rfl some_
    | object body =>
        simp only [Layout.kindOf, TypeDef.kind, body] at leaf
        cases leaf
    | leaf _ _ ran => exact ⟨_, ran⟩
  · rintro ⟨parsed, ran⟩
    exact .leaf leaf some_ ran

theorem decides_leaf (takes : LeavesTake answer layout known) (member : known id)
    (leaf : (layout.kindOf id).isLeaf = true) (raw : value.isRaw = true) (some_ : value ≠ .null)
    (path : List PathKey) :
    Decides answer layout (.named id) value path (coerceLeaf layout value id path) := by
  intro state
  have outcome := takes id value member leaf raw some_ state
  rw [coerceLeaf, Action.run_andThen]
  generalize ran : (layout.parseValue (layout.leafInEffect id) value).run answer state = run
    at outcome
  obtain ⟨result, after⟩ := run
  rcases outcome with ⟨parsed, rfl, present⟩ | ⟨failure, rfl, rejects⟩
  · have came : ((layout.parseValue (layout.leafInEffect id) value).run answer state).1
        = .ok parsed := by rw [ran]
    refine .inl ⟨parsed, after, rfl, .leaf leaf some_ ran, fun last valid => ?_,
      .leaf leaf (.inr ⟨value, state, came⟩), .leaf leaf some_ came, fun _ => present⟩
    obtain ⟨other, again⟩ := (valid_leaf_iff leaf some_ state last).1 valid
    exact (Prod.mk.inj (again.symm.trans ran)).2
  · have blames : Blamed answer layout (.named id) value path state
        ⟨.leaf (layout.label (layout.leafInEffect id)) failure.message, path, value⟩ := by
      refine ⟨fun last valid => ?_, [], (List.append_nil path).symm, rfl⟩
      obtain ⟨other, again⟩ := (valid_leaf_iff leaf some_ state last).1 valid
      cases (Prod.mk.inj (again.symm.trans ran)).1
    refine .inr ⟨_, ?_, blames⟩
    simp only [rejects, if_true]
    rfl

end Leaves

end Input

end GraphQL
