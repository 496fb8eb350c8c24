import GraphQL.Proofs.ArgumentTypes
import GraphQL.Proofs.LiteralValues

/-!
Which literals an input type takes. This is said by recursion on the parts of the literal, without a
word on how it is read. Reading is then shown to tell just that: it comes to a value where the type
takes the literal, and to undefined where it does not.
-/

namespace GraphQL

theorem Value.eq_undefined {value : Value} (undefined_ : value.isUndefined = true) :
    value = .undefined := by
  cases value <;> first | rfl | cases undefined_

namespace Leaf

/-- A leaf is read as a value other than null, or rejected. -/
def ReadsValue (result : Except Failure Value) : Prop :=
  (∃ value, result = .ok value ∧ value ≠ .null ∧ value.isUndefined = false)
    ∨ ∃ failure, result = .error failure ∧ failure.kind.rejectsInput = true

end Leaf

namespace Input

variable {σ : Type}

mutual

/-- The literals that an input type takes while variables have the given values. Its leaf types may
go by what they were asked before, so the application is in one state at the beginning and in another
at the end. -/
inductive ValidLiteral (answer : Call → σ → Reply × σ) (layout : Layout) (vars : Variables) :
    TypeRef → Literal → σ → σ → Prop where
  | reference {type : TypeRef} {start : Nat} {name : String} {value : Value} {state : σ} :
    vars.lookup name = some value → value.isUndefined = false →
    (value.isNull && type.isNonNull) = false →
    ValidLiteral answer layout vars type (.reference start name) state state
  | null {type : TypeRef} {start : Nat} {state : σ} : type.isNonNull = false →
    ValidLiteral answer layout vars type (.null start) state state
  | nonNull {of : TypeRef} {literal : Literal} {state after : σ} : literal.isNull = false →
    literal.reference? = none → ValidLiteral answer layout vars of literal state after →
    ValidLiteral answer layout vars (.nonNull of) literal state after
  | list {of : TypeRef} {start : Nat} {items : List Literal} {state after : σ} :
    AllValidLiterals answer layout vars of items state after →
    ValidLiteral answer layout vars (.list of) (.list start items) state after
  | single {of : TypeRef} {literal : Literal} {state after : σ} : literal.isNull = false →
    literal.reference? = none → (∀ start items, literal ≠ .list start items) →
    ValidLiteral answer layout vars of literal state after →
    ValidLiteral answer layout vars (.list of) literal state after
  | object {id : TypeId} {declared : Table InputValue} {start : Nat}
      {fields : List (String × Literal)} {state after : σ} :
    (layout.definition id).body = .input (.ok declared) →
    ValidLiteralFields answer layout vars declared.entries fields state after →
    (∀ field ∈ fields, (declared.find? field.1).isSome = true) →
    ValidLiteral answer layout vars (.named id) (.object start fields) state after
  | leaf {id : TypeId} {literal : Literal} {parsed : Value} {state after : σ} :
    (layout.kindOf id).isLeaf = true → literal.isNull = false → literal.reference? = none →
    (layout.parseLiteral (layout.leafInEffect id) literal vars).run answer state
      = (.ok parsed, after) →
    ValidLiteral answer layout vars (.named id) literal state after

/-- A variable without a value stands for null among items that may be null. -/
inductive AllValidLiterals (answer : Call → σ → Reply × σ) (layout : Layout) (vars : Variables) :
    TypeRef → List Literal → σ → σ → Prop where
  | nil {type : TypeRef} {state : σ} : AllValidLiterals answer layout vars type [] state state
  | missing {type : TypeRef} {item : Literal} {rest : List Literal} {state after : σ} :
    isMissing vars item = true → type.isNonNull = false →
    AllValidLiterals answer layout vars type rest state after →
    AllValidLiterals answer layout vars type (item :: rest) state after
  | cons {type : TypeRef} {item : Literal} {rest : List Literal} {state middle after : σ} :
    isMissing vars item = false → ValidLiteral answer layout vars type item state middle →
    AllValidLiterals answer layout vars type rest middle after →
    AllValidLiterals answer layout vars type (item :: rest) state after

/-- What an object gives for the declared fields: only what has a default or may be null is left out,
or given as a variable without a value. Of a field given twice the last one counts. -/
inductive ValidLiteralFields (answer : Call → σ → Reply × σ) (layout : Layout)
    (vars : Variables) :
    List (Value × InputValue) → List (String × Literal) → σ → σ → Prop where
  | nil {fields : List (String × Literal)} {state : σ} :
    ValidLiteralFields answer layout vars [] fields state state
  | given {key : String} {input : InputValue} {type : TypeRef} {literal : Literal}
      {rest : List (Value × InputValue)} {fields : List (String × Literal)}
      {state middle after : σ} :
    (fields.reverse.lookup key).filter (!isMissing vars ·) = some literal →
    input.type = .ok type → ValidLiteral answer layout vars type literal state middle →
    ValidLiteralFields answer layout vars rest fields middle after →
    ValidLiteralFields answer layout vars ((.str key, input) :: rest) fields state after
  | omitted {key : String} {input : InputValue} {rest : List (Value × InputValue)}
      {fields : List (String × Literal)} {state after : σ} :
    (fields.reverse.lookup key).filter (!isMissing vars ·) = none →
    (input.hasDefault = true ∨ ∃ type, input.type = .ok type ∧ type.isNonNull = false) →
    ValidLiteralFields answer layout vars rest fields state after →
    ValidLiteralFields answer layout vars ((.str key, input) :: rest) fields state after

end

/-- The functions of leaf types read every literal that is no null as a value, or reject it. -/
def LeavesReadLiterals (answer : Call → σ → Reply × σ) (layout : Layout) (known : TypeId → Prop) :
    Prop :=
  ∀ id literal vars, known id → (layout.kindOf id).isLeaf = true → literal.isNull = false →
    literal.reference? = none →
    (layout.parseLiteral (layout.leafInEffect id) literal vars).Ensures answer Leaf.ReadsValue

/-- An action tells whether something is valid, which takes the application from one state to
another: it comes to a value if it is, and to undefined if not. -/
def Tells (answer : Call → σ → Reply × σ) (valid : σ → σ → Prop) (action : Action Value) : Prop :=
  ∀ state, ∃ value after, action.run answer state = (.ok value, after)
    ∧ (value.isUndefined = false ∧ valid state after ∧ (∀ last, valid state last → last = after)
      ∨ value = .undefined ∧ ∀ last, ¬ valid state last)

variable {answer : Call → σ → Reply × σ} {layout : Layout} {vars : Variables}
  {known : TypeId → Prop} {valid other : σ → σ → Prop}

theorem tells_undefined (never : ∀ state after, ¬ valid state after) :
    Tells answer valid (return .undefined) :=
  fun state => ⟨.undefined, state, rfl, .inr ⟨rfl, never state⟩⟩

theorem tells_value {value : Value} (defined : value.isUndefined = false)
    (stays : ∀ state after, valid state after ↔ after = state) :
    Tells answer valid (return value) :=
  fun state => ⟨value, state, rfl,
    .inl ⟨defined, (stays state state).2 rfl, fun last => (stays state last).1⟩⟩

theorem Tells.congr {action : Action Value} (tells : Tells answer valid action)
    (same : ∀ state after, other state after ↔ valid state after) : Tells answer other action := by
  have eq : other = valid := funext fun state => funext fun after => propext (same state after)
  rw [eq]
  exact tells

/-- What is told in two steps is valid in two steps. -/
theorem Tells.step {first second : σ → σ → Prop} {action : Action Value}
    {next : Value → Action Value} (head : Tells answer first action)
    (tail : ∀ value, value.isUndefined = false → Tells answer second (next value)) :
    Tells answer (fun state after => ∃ middle, first state middle ∧ second middle after)
      (do
        let value ← action
        if value.isUndefined then return .undefined else next value) := by
  intro state
  obtain ⟨value, middle, ran, ⟨defined, holds, only⟩ | ⟨rfl, never⟩⟩ := head state
  · rw [Action.run_bind_ok ran, defined, if_neg Bool.false_ne_true]
    obtain ⟨result, after, ran, ⟨some_, valid, last_⟩ | ⟨rfl, never⟩⟩ := tail value defined middle
    · refine ⟨result, after, ran, .inl ⟨some_, ⟨middle, holds, valid⟩, ?_⟩⟩
      rintro last ⟨between, first, second⟩
      cases only _ first
      exact last_ last second
    · refine ⟨.undefined, after, ran, .inr ⟨rfl, ?_⟩⟩
      rintro last ⟨between, first, second⟩
      cases only _ first
      exact never last second
  · rw [Action.run_bind_ok ran]
    refine ⟨.undefined, middle, rfl, .inr ⟨rfl, ?_⟩⟩
    rintro last ⟨between, first, _⟩
    exact never between first

theorem tells_single {action : Action Value} (tells : Tells answer valid action) :
    Tells answer valid (do
      let single ← action
      if single.isUndefined then return .undefined else return .list [single]) := by
  have stays (value : Value) :
      Tells answer (fun state after => after = state) (return .list [value]) :=
    tells_value rfl fun _ _ => Iff.rfl
  refine (tells.step fun value _ => stays value).congr fun state after =>
    ⟨fun holds => ⟨after, holds, rfl⟩, ?_⟩
  rintro ⟨_, holds, rfl⟩
  exact holds

section Forms

variable {literal : Literal} {of type : TypeRef} {state after : σ}

theorem validLiteral_nonNull_iff (some_ : literal.isNull = false)
    (plain : literal.reference? = none) :
    ValidLiteral answer layout vars (.nonNull of) literal state after
      ↔ ValidLiteral answer layout vars of literal state after := by
  refine ⟨fun valid => ?_, .nonNull some_ plain⟩
  cases valid with
  | nonNull _ _ valid => exact valid
  | reference => cases plain
  | null => cases some_

theorem validLiteral_single_iff (some_ : literal.isNull = false)
    (plain : literal.reference? = none) (single : ∀ start items, literal ≠ .list start items) :
    ValidLiteral answer layout vars (.list of) literal state after
      ↔ ValidLiteral answer layout vars of literal state after := by
  refine ⟨fun valid => ?_, .single some_ plain single⟩
  cases valid with
  | single _ _ _ valid => exact valid
  | reference => cases plain
  | null => cases some_
  | list => exact (single _ _ rfl).elim

theorem validLiteral_list_iff {start : Nat} {items : List Literal} :
    ValidLiteral answer layout vars (.list of) (.list start items) state after
      ↔ AllValidLiterals answer layout vars of items state after := by
  refine ⟨fun valid => ?_, .list⟩
  cases valid with
  | list all => exact all
  | single _ _ single => exact (single _ _ rfl).elim

theorem validLiteral_leaf_iff {id : TypeId} (leaf : (layout.kindOf id).isLeaf = true)
    (some_ : literal.isNull = false) (plain : literal.reference? = none) :
    ValidLiteral answer layout vars (.named id) literal state after
      ↔ ∃ parsed, (layout.parseLiteral (layout.leafInEffect id) literal vars).run answer state
        = (.ok parsed, after) := by
  refine ⟨fun valid => ?_, fun ⟨parsed, ran⟩ => .leaf leaf some_ plain ran⟩
  cases valid with
  | leaf _ _ _ ran => exact ⟨_, ran⟩
  | reference => cases plain
  | null => cases some_
  | object body =>
      simp only [Layout.kindOf, TypeDef.kind, body] at leaf
      cases leaf

theorem validLiteral_object_iff {id : TypeId} {declared : Table InputValue} {start : Nat}
    {fields : List (String × Literal)} (body : (layout.definition id).body = .input (.ok declared)) :
    ValidLiteral answer layout vars (.named id) (.object start fields) state after
      ↔ ValidLiteralFields answer layout vars declared.entries fields state after
        ∧ ∀ field ∈ fields, (declared.find? field.1).isSome = true := by
  refine ⟨fun valid => ?_, fun ⟨valid, all⟩ => .object body valid all⟩
  cases valid with
  | object again valid all =>
      cases body.symm.trans again
      exact ⟨valid, all⟩
  | leaf leaf =>
      simp only [Layout.kindOf, TypeDef.kind, body] at leaf
      cases leaf

theorem not_validLiteral_of_fields {id : TypeId} {declared : Table InputValue}
    (body : (layout.definition id).body = .input (.ok declared)) (some_ : literal.isNull = false)
    (plain : literal.reference? = none) (noObject : ∀ start fields, literal ≠ .object start fields) :
    ¬ ValidLiteral answer layout vars (.named id) literal state after := by
  intro valid
  cases valid with
  | reference => cases plain
  | null => cases some_
  | object => exact noObject _ _ rfl
  | leaf leaf =>
      simp only [Layout.kindOf, TypeDef.kind, body] at leaf
      cases leaf

theorem validLiteral_null_iff {start : Nat} :
    ValidLiteral answer layout vars type (.null start) state after
      ↔ type.isNonNull = false ∧ after = state := by
  constructor
  · intro valid
    cases valid with
    | null nullable => exact ⟨nullable, rfl⟩
    | nonNull some_ => cases some_
    | single some_ => cases some_
    | leaf _ some_ => cases some_
  · rintro ⟨nullable, rfl⟩
    exact .null nullable

theorem validLiteral_reference_iff {start : Nat} {name : String} :
    ValidLiteral answer layout vars type (.reference start name) state after
      ↔ (∃ value, vars.lookup name = some value ∧ value.isUndefined = false
        ∧ (value.isNull && type.isNonNull) = false) ∧ after = state := by
  constructor
  · intro valid
    cases valid with
    | reference held defined allowed => exact ⟨⟨_, held, defined, allowed⟩, rfl⟩
    | nonNull _ plain => cases plain
    | single _ plain => cases plain
    | leaf _ _ plain => cases plain
  · rintro ⟨⟨value, held, defined, allowed⟩, rfl⟩
    exact .reference held defined allowed

theorem allValidLiterals_nil_iff :
    AllValidLiterals answer layout vars type [] state after ↔ after = state := by
  refine ⟨fun valid => ?_, fun same => ?_⟩
  · cases valid
    rfl
  · rw [same]
    exact .nil

/-- A variable without a value is passed over where an item may be null. -/
theorem allValidLiterals_missing_iff {item : Literal} {rest : List Literal}
    (missing : isMissing vars item = true) :
    AllValidLiterals answer layout vars type (item :: rest) state after
      ↔ type.isNonNull = false ∧ AllValidLiterals answer layout vars type rest state after := by
  refine ⟨fun valid => ?_, fun left => .missing missing left.1 left.2⟩
  cases valid with
  | missing _ nullable others => exact ⟨nullable, others⟩
  | cons present =>
      rw [missing] at present
      cases present

theorem allValidLiterals_cons_iff {item : Literal} {rest : List Literal}
    (present : isMissing vars item = false) :
    AllValidLiterals answer layout vars type (item :: rest) state after
      ↔ ∃ middle, ValidLiteral answer layout vars type item state middle
        ∧ AllValidLiterals answer layout vars type rest middle after := by
  refine ⟨fun valid => ?_, fun taken => ?_⟩
  · cases valid with
    | missing absent =>
        rw [present] at absent
        cases absent
    | cons _ first others => exact ⟨_, first, others⟩
  · obtain ⟨_, first, others⟩ := taken
    exact .cons present first others

section

variable {key : String} {input : InputValue} {rest : List (Value × InputValue)}
variable {fields : List (String × Literal)}

theorem validLiteralFields_nil_iff :
    ValidLiteralFields answer layout vars [] fields state after ↔ after = state := by
  refine ⟨fun valid => ?_, fun same => ?_⟩
  · cases valid
    rfl
  · rw [same]
    exact .nil

theorem validLiteralFields_given_iff (typed : input.type = .ok type)
    (given : (fields.reverse.lookup key).filter (!isMissing vars ·) = some literal) :
    ValidLiteralFields answer layout vars ((.str key, input) :: rest) fields state after
      ↔ ∃ middle, ValidLiteral answer layout vars type literal state middle
        ∧ ValidLiteralFields answer layout vars rest fields middle after := by
  refine ⟨fun valid => ?_, fun taken => ?_⟩
  · cases valid with
    | given again typed' first others =>
        cases given.symm.trans again
        cases typed.symm.trans typed'
        exact ⟨_, first, others⟩
    | omitted absent =>
        rw [given] at absent
        cases absent
  · obtain ⟨_, first, others⟩ := taken
    exact .given given typed first others

theorem validLiteralFields_omitted_iff (typed : input.type = .ok type)
    (absent : (fields.reverse.lookup key).filter (!isMissing vars ·) = none) :
    ValidLiteralFields answer layout vars ((.str key, input) :: rest) fields state after
      ↔ (input.hasDefault = true ∨ type.isNonNull = false)
        ∧ ValidLiteralFields answer layout vars rest fields state after := by
  refine ⟨fun valid => ?_, fun left => ?_⟩
  · cases valid with
    | given again =>
        rw [absent] at again
        cases again
    | omitted _ optional others =>
        refine ⟨optional.imp_right fun nullable => ?_, others⟩
        obtain ⟨_, typed', nullable⟩ := nullable
        cases typed.symm.trans typed'
        exact nullable
  · exact .omitted absent (left.1.imp_right fun nullable => ⟨type, typed, nullable⟩) left.2

end

end Forms

/-- Reading a literal tells whether a type takes it. -/
def LiteralTells (answer : Call → σ → Reply × σ) (layout : Layout) (vars : Variables)
    (known : TypeId → Prop) (literal : Literal) : Prop :=
  ∀ type inner, type.innermost = .ok inner → known inner →
    Tells answer (ValidLiteral answer layout vars type literal) (readLiteral layout vars literal type)

theorem tells_items (type : TypeRef) (inner : TypeId) (leads : type.innermost = .ok inner)
    (member : known inner) (items : List Literal)
    (each : ∀ item ∈ items, LiteralTells answer layout vars known item) (made : List Value) :
    Tells answer (AllValidLiterals answer layout vars type items)
      (readItems layout vars items type made) := by
  induction items generalizing made with
  | nil => exact tells_value rfl fun state after => allValidLiterals_nil_iff
  | cons item rest ih =>
      have later := ih fun other inside => each other (List.mem_cons_of_mem _ inside)
      rw [readItems]
      cases missing : isMissing vars item with
      | true =>
          rw [if_pos rfl]
          cases nullable : type.isNonNull with
          | true =>
              refine tells_undefined fun state after valid => ?_
              rw [allValidLiterals_missing_iff missing, nullable] at valid
              cases valid.1
          | false =>
              exact (later (made ++ [.null])).congr fun state after =>
                (allValidLiterals_missing_iff missing).trans (and_iff_right nullable)
      | false =>
          rw [if_neg Bool.false_ne_true]
          exact ((each item List.mem_cons_self type inner leads member).step
            fun value _ => later (made ++ [value])).congr fun state after =>
              allValidLiterals_cons_iff missing

section Objects

variable {fields : List (String × Literal)}

theorem reader_of_fields (key : String) :
    ((fieldReaders layout vars fields).reverse.lookup key).filter (!·.missing)
      = ((fields.reverse.lookup key).filter (!isMissing vars ·)).map fun literal =>
        ⟨isMissing vars literal, readLiteral layout vars literal⟩ := by
  rw [lookup_fieldReaders]
  cases fields.reverse.lookup key with
  | none => rfl
  | some literal =>
      simp only [Option.map_some, Option.filter_some]
      split <;> rfl

theorem tells_declared (each : ∀ field ∈ fields, LiteralTells answer layout vars known field.2)
    (declared : List (Value × InputValue))
    (entries : ∀ entry ∈ declared, InputValue.Declares known entry.2)
    (texts : Value.UnderTexts declared) (made : List (Value × Value)) :
    Tells answer (ValidLiteralFields answer layout vars declared fields)
      (readDeclared (fieldReaders layout vars fields).reverse declared made) := by
  induction declared generalizing made with
  | nil => exact tells_value rfl fun state after => validLiteralFields_nil_iff
  | cons entry rest ih =>
      obtain ⟨name, input⟩ := entry
      obtain ⟨key, rfl⟩ := texts _ List.mem_cons_self
      obtain ⟨type, inner, typed, leads, member⟩ := entries _ List.mem_cons_self
      have later := ih (fun other inside => entries other (List.mem_cons_of_mem _ inside))
        fun other inside => texts other (List.mem_cons_of_mem _ inside)
      unfold readDeclared
      simp only [Value.string?, Option.bind_some, reader_of_fields]
      -- a field that is given is read; for another one there is the default, or it may be null
      cases given : (fields.reverse.lookup key).filter (!isMissing vars ·) with
      | some literal =>
          have written := mem_of_lookup_reverse (Option.filter_eq_some_iff.1 given).1
          simp only [Option.map_some, worked_bind typed]
          exact ((each _ written type inner leads member).step
            fun value _ => later (made ++ [(.str key, value)])).congr fun state after =>
              validLiteralFields_given_iff typed given
      | none =>
          have omitted (state after : σ) :
              ValidLiteralFields answer layout vars ((.str key, input) :: rest) fields state after
                ↔ _ := validLiteralFields_omitted_iff typed given
          simp only [Option.map_none]
          cases preset : input.hasDefault with
          | true =>
              exact (later _).congr fun state after =>
                (omitted state after).trans (and_iff_right (.inl preset))
          | false =>
              simp only [Bool.false_eq_true, if_false, worked_bind typed]
              cases nullable : type.isNonNull with
              | false =>
                  exact (later made).congr fun state after =>
                    (omitted state after).trans (and_iff_right (.inr nullable))
              | true =>
                  refine tells_undefined fun state after valid => ?_
                  rw [omitted state after, preset, nullable] at valid
                  rcases valid.1 with again | allowed
                  · cases again
                  · cases allowed

theorem any_fieldReaders (fields : List (String × Literal)) (test : String → Bool) :
    ((fieldReaders layout vars fields).any fun field => test field.1)
      = fields.any fun field => test field.1 := by
  induction fields with
  | nil => rfl
  | cons field rest ih => rw [fieldReaders, List.any_cons, List.any_cons, ih]

theorem tells_object (types : TextInputTypes layout known)
    (each : ∀ field ∈ fields, LiteralTells answer layout vars known field.2) (start : Nat)
    {id : TypeId} (member : known id) {declared : Table InputValue}
    (body : (layout.definition id).body = .input (.ok declared))
    (entries : ∀ entry ∈ declared.entries, InputValue.Declares known entry.2) :
    Tells answer (ValidLiteral answer layout vars (.named id) (.object start fields))
      (readObject (fieldReaders layout vars fields) declared) := by
  rw [readObject, any_fieldReaders fields fun name => (declared.find? name).isNone]
  split
  · next unknown =>
      obtain ⟨field, inside, absent⟩ := List.any_eq_true.1 unknown
      refine tells_undefined fun state after valid => ?_
      have declares := ((validLiteral_object_iff body).1 valid).2 field inside
      rw [Option.isNone_iff_eq_none.1 absent] at declares
      cases declares
  · next declares =>
      refine (tells_declared each declared.entries entries (types.texts id declared member body)
        []).congr fun state after => (validLiteral_object_iff body).trans (and_iff_left ?_)
      simpa [← Option.isSome_iff_ne_none] using declares

end Objects

/-- The parts of a literal tell by which types it is taken. -/
structure PartsTell (answer : Call → σ → Reply × σ) (layout : Layout) (vars : Variables)
    (known : TypeId → Prop) (literal : Literal) (parts : Parts) : Prop where
  items : (parts.items = none ∧ ∀ start items, literal ≠ .list start items)
    ∨ ∃ read, parts.items = some read ∧ ∀ of inner, of.innermost = .ok inner → known inner →
      Tells answer (ValidLiteral answer layout vars (.list of) literal) (read of)
  fields : (parts.fields = none ∧ ∀ start fields, literal ≠ .object start fields)
    ∨ ∃ read, parts.fields = some read ∧ ∀ id declared, known id →
      (layout.definition id).body = .input (.ok declared) →
      (∀ entry ∈ declared.entries, InputValue.Declares known entry.2) →
      Tells answer (ValidLiteral answer layout vars (.named id) literal) (read id declared)

variable {literal : Literal} {parts : Parts}

theorem tells_leaf (reads : LeavesReadLiterals answer layout known) {id : TypeId}
    (member : known id) (leaf : (layout.kindOf id).isLeaf = true) (some_ : literal.isNull = false)
    (plain : literal.reference? = none) :
    Tells answer (ValidLiteral answer layout vars (.named id) literal)
      (readLeaf layout vars literal id) := by
  intro state
  have outcome := reads id literal vars member leaf some_ plain state
  rw [readLeaf, Action.run_andThen]
  generalize ran : (layout.parseLiteral (layout.leafInEffect id) literal vars).run answer state = run
    at outcome
  obtain ⟨result, after⟩ := run
  rcases outcome with ⟨parsed, rfl, _, defined⟩ | ⟨failure, rfl, rejects⟩
  · refine ⟨parsed, after, rfl, .inl ⟨defined, .leaf leaf some_ plain ran, fun last valid => ?_⟩⟩
    obtain ⟨other, again⟩ := (validLiteral_leaf_iff leaf some_ plain).1 valid
    exact (Prod.mk.inj (again.symm.trans ran)).2
  · refine ⟨.undefined, after, ?_, .inr ⟨rfl, fun last valid => ?_⟩⟩
    · simp only [rejects, if_true]
      rfl
    · obtain ⟨other, again⟩ := (validLiteral_leaf_iff leaf some_ plain).1 valid
      cases (Prod.mk.inj (again.symm.trans ran)).1

theorem tells_through (types : TextInputTypes layout known)
    (reads : LeavesReadLiterals answer layout known) (some_ : literal.isNull = false)
    (plain : literal.reference? = none) (tell : PartsTell answer layout vars known literal parts)
    (type : TypeRef) (inner : TypeId) (leads : type.innermost = .ok inner) (member : known inner) :
    Tells answer (ValidLiteral answer layout vars type literal)
      (readThrough layout vars literal parts type) := by
  induction type with
  | broken fault => cases leads
  | nonNull of ih =>
      rw [readThrough, some_]
      exact (ih leads).congr fun state after => validLiteral_nonNull_iff some_ plain
  | list of ih =>
      rw [readThrough, some_]
      rcases tell.items with ⟨none_, single⟩ | ⟨read, items, each⟩
      · rw [none_]
        exact (tells_single (ih leads)).congr fun state after =>
          validLiteral_single_iff some_ plain single
      · rw [items]
        have inside : of.innermost = .ok inner := leads
        simp only [Bool.false_eq_true, if_false, worked_bind (TypeRef.present_of_innermost inside)]
        exact each of inner leads member
  | named id =>
      cases leads
      rw [readThrough, some_, if_neg Bool.false_ne_true]
      rcases types.shape inner member with leaf | ⟨declared, body, entries⟩
      · rw [readNamed_leaf leaf]
        exact tells_leaf reads member leaf some_ plain
      · rw [readNamed, body]
        rcases tell.fields with ⟨none_, noObject⟩ | ⟨read, given, each⟩
        · rw [none_]
          exact tells_undefined fun state after => not_validLiteral_of_fields body some_ plain noObject
        · rw [given]
          exact each inner declared member body entries

theorem tells_null (start : Nat) (type : TypeRef) (inner : TypeId)
    (leads : type.innermost = .ok inner) :
    Tells answer (ValidLiteral answer layout vars type (.null start))
      (readThrough layout vars (.null start) {} type) := by
  cases type with
  | broken fault => cases leads
  | nonNull of =>
      refine tells_undefined fun state after valid => ?_
      cases (validLiteral_null_iff.1 valid).1
  | list of | named id =>
      exact tells_value rfl fun state after => validLiteral_null_iff.trans (and_iff_right rfl)

theorem tells_reference (start : Nat) (name : String) (type : TypeRef) :
    Tells answer (ValidLiteral answer layout vars type (.reference start name))
      (readReference vars name type) := by
  rw [readReference]
  cases held : vars.lookup name with
  | none =>
      refine tells_undefined fun state after valid => ?_
      obtain ⟨⟨value, held', _⟩, _⟩ := validLiteral_reference_iff.1 valid
      rw [held] at held'
      cases held'
  | some value =>
      simp only
      split
      · next refused =>
          refine tells_undefined fun state after valid => ?_
          obtain ⟨⟨_, held', _, allowed⟩, _⟩ := validLiteral_reference_iff.1 valid
          cases held.symm.trans held'
          rw [refused] at allowed
          cases allowed
      · next allowed =>
          cases defined : value.isUndefined with
          | true =>
              rw [Value.eq_undefined defined]
              refine tells_undefined fun state after valid => ?_
              obtain ⟨⟨_, held', defined', _⟩, _⟩ := validLiteral_reference_iff.1 valid
              cases held.symm.trans held'
              rw [defined] at defined'
              cases defined'
          | false =>
              exact tells_value defined fun state after => validLiteral_reference_iff.trans
                (and_iff_right ⟨value, held, defined, Bool.eq_false_iff.2 allowed⟩)

mutual

theorem literalTells (types : TextInputTypes layout known)
    (reads : LeavesReadLiterals answer layout known) (literal : Literal) :
    LiteralTells answer layout vars known literal := by
  -- By recursion on the literal: reading it tells, as reading its parts does.
  match literal with
  | .reference start name => exact fun type inner leads member => tells_reference start name type
  | .null start => exact fun type inner leads member => tells_null start type inner leads
  | .list start items =>
      refine fun type inner leads member => tells_through types reads rfl rfl
        ⟨.inr ⟨_, rfl, fun of inner leads member => ?_⟩, .inl ⟨rfl, by simp⟩⟩ type inner leads member
      exact (tells_items of inner leads member items (itemsTell types reads items) []).congr
        fun state after => validLiteral_list_iff
  | .object start fields =>
      refine fun type inner leads member => tells_through types reads rfl rfl
        ⟨.inl ⟨rfl, by simp⟩, .inr ⟨_, rfl, fun id declared member body entries => ?_⟩⟩ type inner leads
        member
      exact tells_object types (fieldsTell types reads fields) start member body entries
  | .int .. | .float .. | .string .. | .boolean .. | .enum .. =>
      exact fun type inner leads member => tells_through types reads rfl rfl
        ⟨.inl ⟨rfl, by simp⟩, .inl ⟨rfl, by simp⟩⟩ type inner leads member

theorem itemsTell (types : TextInputTypes layout known)
    (reads : LeavesReadLiterals answer layout known) (items : List Literal) :
    ∀ item ∈ items, LiteralTells answer layout vars known item := by
  match items with
  | [] =>
      intro item inside
      cases inside
  | item :: rest =>
      intro other inside
      rcases List.mem_cons.1 inside with same | later
      · rw [same]
        exact literalTells types reads item
      · exact itemsTell types reads rest other later

theorem fieldsTell (types : TextInputTypes layout known)
    (reads : LeavesReadLiterals answer layout known) (fields : List (String × Literal)) :
    ∀ field ∈ fields, LiteralTells answer layout vars known field.2 := by
  match fields with
  | [] =>
      intro field inside
      cases inside
  | (name, literal) :: rest =>
      intro other inside
      rcases List.mem_cons.1 inside with same | later
      · rw [same]
        exact literalTells types reads literal
      · exact fieldsTell types reads rest other later

end

end Input

end GraphQL
