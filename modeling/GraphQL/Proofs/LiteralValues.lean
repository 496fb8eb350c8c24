import GraphQL.Proofs.InputTypes
import GraphQL.Input.Arguments

/-!
Literals and runtime values. A literal without variables is read as an input type to the value that
the plain value of the literal is coerced to, and it is no value of the type where that is refused,
as long as this holds of the leaf types at the places where leaves stand.
-/

namespace GraphQL

namespace Literal

mutual

/-- Whether no variable stands in a literal. -/
def isConstant : Literal → Bool
  | .reference .. => false
  | .list _ items => allConstant items
  | .object _ fields => fieldsConstant fields
  | _ => true

def allConstant : List Literal → Bool
  | [] => true
  | item :: rest => item.isConstant && allConstant rest

def fieldsConstant : List (String × Literal) → Bool
  | [] => true
  | (_, field) :: rest => field.isConstant && fieldsConstant rest

end

theorem mem_fieldsConstant {fields : List (String × Literal)}
    (constant : fieldsConstant fields = true) : ∀ field ∈ fields, field.2.isConstant = true := by
  induction fields with
  | nil =>
      intro field inside
      cases inside
  | cons field rest ih =>
      rw [fieldsConstant, Bool.and_eq_true] at constant
      intro other inside
      rcases List.mem_cons.1 inside with rfl | later
      · exact constant.1
      · exact ih constant.2 other later

/-- What the plain value of an object holds under a key, if it is made on top of other entries. -/
theorem lookup?_untypedFields (fields : List (String × Literal))
    (entries made : List (Value × Value)) (plain : untypedFields [] fields = .ok entries)
    (texts : Value.UnderTexts made) (key : String) :
    Value.UnderTexts (Value.putAll made entries)
      ∧ ((fields.reverse.lookup key = none
          ∧ Value.lookup? (Value.putAll made entries) (.str key) = Value.lookup? made (.str key))
        ∨ ∃ literal value, fields.reverse.lookup key = some literal
          ∧ literal.untyped [] = .ok value
          ∧ Value.lookup? (Value.putAll made entries) (.str key) = some value) := by
  induction fields generalizing entries made with
  | nil =>
      cases plain
      exact ⟨texts, .inl ⟨rfl, rfl⟩⟩
  | cons field rest ih =>
      obtain ⟨name, literal⟩ := field
      simp only [untypedFields, bind, Except.bind] at plain
      split at plain
      · cases plain
      · next value here =>
          split at plain
          · cases plain
          · next others later =>
              cases plain
              obtain ⟨under, found⟩ :=
                ih others (Value.putEntry made (.str name) value) later
                  (Value.underTexts_putEntry texts name value)
              refine ⟨under, ?_⟩
              rw [List.reverse_cons, List.lookup_append, Value.putAll, List.foldl_cons]
              rw [Value.putAll] at found
              rcases found with ⟨none_, kept⟩ | ⟨last, held, some_, untyped, kept⟩
              · rw [none_, kept, Value.lookup?_putEntry_str texts, Option.none_or]
                by_cases same : name = key
                · refine .inr ⟨literal, value, ?_, here, if_pos same⟩
                  simp [same]
                · refine .inl ⟨?_, if_neg same⟩
                  simp [List.lookup, beq_eq_false_iff_ne.2 (Ne.symm same)]
              · exact .inr ⟨last, held, by rw [some_, Option.some_or], untyped, kept⟩

end Literal

namespace Input

/-- The parts of a literal at which a leaf type is met. Of a field given twice the last one
counts. -/
inductive LeafPosition (layout : Layout) : Literal → TypeRef → Literal → TypeId → Prop where
  | here {literal : Literal} {leaf : TypeId} : literal.isNull = false →
    (layout.kindOf leaf).isLeaf = true → LeafPosition layout literal (.named leaf) literal leaf
  | nonNull {literal part : Literal} {type : TypeRef} {leaf : TypeId} :
    LeafPosition layout literal type part leaf →
    LeafPosition layout literal (.nonNull type) part leaf
  | single {literal part : Literal} {type : TypeRef} {leaf : TypeId} :
    (∀ start items, literal ≠ .list start items) → LeafPosition layout literal type part leaf →
    LeafPosition layout literal (.list type) part leaf
  | item {start : Nat} {items : List Literal} {item part : Literal} {type : TypeRef}
      {leaf : TypeId} :
    item ∈ items → LeafPosition layout item type part leaf →
    LeafPosition layout (.list start items) (.list type) part leaf
  | field {start : Nat} {fields : List (String × Literal)} {declared : Table InputValue}
      {id leaf : TypeId} {key : String} {input : InputValue} {value part : Literal}
      {type : TypeRef} :
    (layout.definition id).body = .input (.ok declared) → (.str key, input) ∈ declared.entries →
    input.type = .ok type → fields.reverse.lookup key = some value →
    LeafPosition layout value type part leaf →
    LeafPosition layout (.object start fields) (.named id) part leaf

variable {σ : Type} {answer : Call → σ → Reply × σ} {layout : Layout} {vars : Variables}

/-- A result that rejects what was to be read as a leaf. -/
def Rejected (result : Except Failure Value) : Prop :=
  ∃ failure, result = .error failure ∧ failure.kind.rejectsInput = true

/-- A result that refuses an input value. -/
def Refused {α : Type} (result : Except Failure α) : Prop :=
  ∃ fault, result = .error (.input fault)

/-- A leaf type reads a literal as it reads the plain value of the literal, or rejects both. -/
def LeafAgrees (answer : Call → σ → Reply × σ) (layout : Layout) (vars : Variables)
    (literal : Literal) (leaf : TypeId) : Prop :=
  ∃ raw, literal.untyped [] = .ok raw
    ∧ ((∃ value, value.isUndefined = false
        ∧ (layout.parseLiteral (layout.leafInEffect leaf) literal vars).Settles answer (.ok value)
        ∧ (layout.parseValue (layout.leafInEffect leaf) raw).Settles answer (.ok value))
      ∨ (layout.parseLiteral (layout.leafInEffect leaf) literal vars).Ensures answer Rejected
        ∧ (layout.parseValue (layout.leafInEffect leaf) raw).Ensures answer Rejected)

/-- Types that differ at most in a leaf type inside, for which the schema uses one leaf type. -/
def SameInEffect (layout : Layout) : TypeRef → TypeRef → Prop
  | .nonNull of, .nonNull other => SameInEffect layout of other
  | .list of, .list other => SameInEffect layout of other
  | .named id, .named other => id = other
    ∨ (layout.kindOf id).isLeaf = true ∧ (layout.kindOf other).isLeaf = true
      ∧ layout.leafInEffect id = layout.leafInEffect other
  | _, _ => False

theorem sameInEffect_refl (type : TypeRef) (inner : TypeId) (leads : type.innermost = .ok inner) :
    SameInEffect layout type type := by
  induction type with
  | named id => exact .inl rfl
  | list of ih => exact ih leads
  | nonNull of ih => exact ih leads
  | broken fault => cases leads

theorem SameInEffect.present {type other : TypeRef} (same : SameInEffect layout type other) :
    type.present = .ok type ∧ other.present = .ok other := by
  cases type <;> cases other <;> first | exact ⟨rfl, rfl⟩ | cases same

/-- A reading and a coercion that come to one value, or find no value of the type. -/
def Alike (answer : Call → σ → Reply × σ) (reading coercion : Action Value) : Prop :=
  (∃ value, value.isUndefined = false ∧ reading.Settles answer (.ok value)
      ∧ coercion.Settles answer (.ok value))
    ∨ reading.Settles answer (.ok .undefined) ∧ coercion.Ensures answer Refused

theorem alike_value (value : Value) (defined : value.isUndefined = false) :
    Alike answer (return value) (return value) :=
  .inl ⟨value, defined, Action.ensures_done _ rfl, Action.ensures_done _ rfl⟩

theorem refused_invalid {α : Type} (problem : InputProblem) (path : List PathKey) (value : Value) :
    (invalid problem path value : Action α).Ensures answer Refused :=
  Action.ensures_done _ ⟨_, rfl⟩

theorem alike_invalid (problem : InputProblem) (path : List PathKey) (value : Value) :
    Alike answer (return .undefined) (invalid problem path value) :=
  .inr ⟨Action.ensures_done _ rfl, refused_invalid problem path value⟩

theorem alike_leaf (literal : Literal) (raw : Value) (plain : literal.untyped [] = .ok raw)
    (leaf other : TypeId) (same : layout.leafInEffect leaf = layout.leafInEffect other)
    (path : List PathKey) (agrees : LeafAgrees answer layout vars literal leaf) :
    Alike answer (readLeaf layout vars literal leaf) (coerceLeaf layout raw other path) := by
  rw [coerceLeaf, ← same]
  obtain ⟨raw', plain', cases_⟩ := agrees
  cases plain.symm.trans plain'
  rcases cases_ with ⟨value, defined, read, parsed⟩ | ⟨read, parsed⟩
  · refine .inl ⟨value, defined, Action.ensures_andThen read ?_, Action.ensures_andThen parsed ?_⟩
    · rintro _ rfl
      exact Action.ensures_done _ rfl
    · rintro _ rfl
      exact Action.ensures_done _ rfl
  · refine .inr ⟨Action.ensures_andThen read ?_, Action.ensures_andThen parsed ?_⟩
    · rintro _ ⟨failure, rfl, rejects⟩
      simp only [rejects, if_true]
      exact Action.ensures_done _ rfl
    · rintro _ ⟨failure, rfl, rejects⟩
      simp only [rejects, if_true]
      exact refused_invalid _ _ _

/-- Whether a literal is read as a type like its plain value, if leaf types agree at its leaves. -/
def AlikeAs (answer : Call → σ → Reply × σ) (layout : Layout) (vars : Variables) (literal : Literal)
    (type : TypeRef) (reading coercion : Action Value) : Prop :=
  (∀ part leaf, LeafPosition layout literal type part leaf →
      LeafAgrees answer layout vars part leaf) → Alike answer reading coercion

/-- The parts of a literal are read like those of its plain value. -/
structure PartsAlike (answer : Call → σ → Reply × σ) (layout : Layout) (vars : Variables)
    (known : TypeId → Prop) (literal : Literal) (parts : Parts) (valueParts : ValueParts) :
    Prop where
  items : (parts.items = none ∧ valueParts.items = none
      ∧ ∀ start items, literal ≠ .list start items)
    ∨ ∃ read coerce, parts.items = some read ∧ valueParts.items = some coerce
      ∧ ∀ type other inner path, SameInEffect layout type other → other.innermost = .ok inner →
        known inner →
          AlikeAs answer layout vars literal (.list type) (read type) (coerce other path)
  fields : (parts.fields = none ∧ valueParts.fields = none)
    ∨ ∃ read coerce, parts.fields = some read ∧ valueParts.fields = some coerce
      ∧ ∀ id declared path, (layout.definition id).body = .input (.ok declared) →
        (∀ entry ∈ declared.entries, InputValue.Declares known entry.2) →
        Value.UnderTexts declared.entries →
        AlikeAs answer layout vars literal (.named id) (read id declared) (coerce id declared path)

variable {known : TypeId → Prop} {literal : Literal} {raw : Value} {parts : Parts}
  {valueParts : ValueParts}

theorem refused_bind {α β : Type} {action : Action α} (refused : action.Ensures answer Refused)
    (next : α → Action β) : (action >>= next).Ensures answer Refused := by
  refine Action.ensures_bind refused ?_ ?_
  · rintro value ⟨fault, ⟨⟩⟩
  · rintro failure ⟨fault, ⟨⟩⟩
    exact ⟨fault, rfl⟩

theorem alike_single {reading coercion : Action Value} (alike : Alike answer reading coercion) :
    Alike answer
      (do
        let single ← reading
        if single.isUndefined then return .undefined else return .list [single])
      (do return .list [← coercion]) := by
  rcases alike with ⟨value, defined, read, coerced⟩ | ⟨read, refused⟩
  · refine .inl ⟨.list [value], rfl, Action.settles_bind read ?_,
      Action.settles_bind coerced (Action.ensures_done _ rfl)⟩
    simp only [defined, Bool.false_eq_true, if_false]
    exact Action.ensures_done _ rfl
  · refine .inr ⟨Action.settles_bind read (Action.ensures_done _ rfl), ?_⟩
    exact refused_bind refused _

theorem coerceNamed_leaf {id : TypeId} (leaf : (layout.kindOf id).isLeaf = true)
    (path : List PathKey) :
    coerceNamed layout raw valueParts id path = coerceLeaf layout raw id path := by
  unfold coerceNamed
  unfold Layout.kindOf TypeDef.kind at leaf
  cases body : (layout.definition id).body with
  | scalar rule => rfl
  | enum values => rfl
  | _ =>
      rw [body] at leaf
      cases leaf

theorem alike_named (types : TextInputTypes layout known) (plain : literal.untyped [] = .ok raw)
    (present : literal.isNull = false)
    (alike : PartsAlike answer layout vars known literal parts valueParts) (id other : TypeId)
    (same : SameInEffect layout (.named id) (.named other)) (member : known other)
    (path : List PathKey) :
    AlikeAs answer layout vars literal (.named id) (readNamed layout vars literal parts id)
      (coerceNamed layout raw valueParts other path) := by
  intro agrees
  have leaves : (layout.kindOf id).isLeaf = true → (layout.kindOf other).isLeaf = true →
      layout.leafInEffect id = layout.leafInEffect other →
      Alike answer (readNamed layout vars literal parts id)
        (coerceNamed layout raw valueParts other path) := by
    intro leaf leaf' same
    rw [readNamed_leaf leaf, coerceNamed_leaf leaf']
    exact alike_leaf literal raw plain id other same path (agrees literal id (.here present leaf))
  rcases same with rfl | ⟨leaf, leaf', same⟩
  · rcases types.shape id member with leaf | ⟨declared, body, entries⟩
    · exact leaves leaf leaf rfl
    · rw [readNamed, coerceNamed, body]
      rcases alike.fields with ⟨none_, none'⟩ | ⟨read, coerce, some_, some', each⟩
      · rw [none_, none']
        exact alike_invalid _ _ _
      · rw [some_, some']
        exact each id declared path body entries (types.texts id declared member body) agrees
  · exact leaves leaf leaf' same

theorem alike_through (types : TextInputTypes layout known) (plain : literal.untyped [] = .ok raw)
    (null : literal.isNull = raw.isNull)
    (alike : PartsAlike answer layout vars known literal parts valueParts) (type other : TypeRef)
    (same : SameInEffect layout type other) (inner : TypeId) (leads : other.innermost = .ok inner)
    (member : known inner) (path : List PathKey) :
    AlikeAs answer layout vars literal type (readThrough layout vars literal parts type)
      (coerceThrough layout raw valueParts other path) := by
  induction type generalizing other with
  | nonNull of ih =>
      cases other with
      | nonNull other =>
          intro agrees
          rw [readThrough, coerceThrough]
          cases nothing : raw.isNull with
          | true =>
              obtain ⟨text, written⟩ := types.text (.nonNull other) inner leads member
              simp only [null, nothing, if_true]
              exact .inr ⟨Action.ensures_done _ rfl,
                Action.settles_bind (settles_text written) (refused_invalid _ _ _)⟩
          | false =>
              simp only [null, nothing, Bool.false_eq_true, if_false]
              exact ih other same leads fun part leaf position =>
                agrees part leaf (.nonNull position)
      | _ => cases same
  | list of ih =>
      cases other with
      | list other =>
          intro agrees
          rw [readThrough, coerceThrough]
          cases nothing : raw.isNull with
          | true =>
              simp only [null, nothing, if_true]
              exact alike_value .null rfl
          | false =>
              simp only [null, nothing, Bool.false_eq_true, if_false]
              rcases alike.items with
                ⟨none_, none', single⟩ | ⟨read, coerce, some_, some', each⟩
              · rw [none_, none']
                exact alike_single <| ih other same leads fun part leaf position =>
                  agrees part leaf (.single single position)
              · rw [some_, some']
                have here : SameInEffect layout of other := same
                simp only [worked_bind here.present.1, worked_bind here.present.2]
                exact each of other inner path same leads member agrees
      | _ => cases same
  | named id =>
      cases other with
      | named other =>
          intro agrees
          cases leads
          rw [readThrough, coerceThrough]
          cases nothing : raw.isNull with
          | true =>
              simp only [null, nothing, if_true]
              exact alike_value .null rfl
          | false =>
              simp only [null, nothing, Bool.false_eq_true, if_false]
              exact alike_named types plain (null.trans nothing) alike id inner same member path
                agrees
      | _ => cases same
  | broken fault =>
      cases other <;> cases same

/-- A literal is read as every input type like its plain value. -/
def LiteralAlike (answer : Call → σ → Reply × σ) (layout : Layout) (vars : Variables)
    (known : TypeId → Prop) (literal : Literal) : Prop :=
  ∀ type other inner path raw, literal.untyped [] = .ok raw → SameInEffect layout type other →
    other.innermost = .ok inner → known inner →
    AlikeAs answer layout vars literal type (readLiteral layout vars literal type)
      (coerce layout raw other path)

theorem isMissing_of_isConstant (literal : Literal) (constant : literal.isConstant = true) :
    isMissing vars literal = false := by
  cases literal with
  | reference start name => cases constant
  | _ => rfl

theorem alike_items (type other : TypeRef) (same : SameInEffect layout type other)
    (inner : TypeId) (leads : other.innermost = .ok inner) (member : known inner)
    (items : List Literal) (constant : Literal.allConstant items = true)
    (each : ∀ item ∈ items, LiteralAlike answer layout vars known item)
    (agrees : ∀ item ∈ items, ∀ part leaf, LeafPosition layout item type part leaf →
      LeafAgrees answer layout vars part leaf)
    (raws : List Value) (plain : Literal.untypedItems [] items = .ok raws) (made : List Value)
    (index : Int) (path : List PathKey) :
    (∃ values, (readItems layout vars items type made).Settles answer (.ok (.list (made ++ values)))
        ∧ (coerceEach (itemCoercions layout raws) index other path).Settles answer (.ok values))
      ∨ (readItems layout vars items type made).Settles answer (.ok .undefined)
        ∧ (coerceEach (itemCoercions layout raws) index other path).Ensures answer Refused := by
  induction items generalizing raws made index with
  | nil =>
      cases plain
      refine .inl ⟨[], Action.ensures_done _ ?_, Action.ensures_done _ rfl⟩
      rw [List.append_nil]
  | cons item rest ih =>
      simp only [Literal.allConstant, Bool.and_eq_true] at constant
      simp only [Literal.untypedItems, bind, Except.bind] at plain
      split at plain
      · cases plain
      · next raw here =>
          split at plain
          · cases plain
          · next others later =>
              cases plain
              have missing : isMissing vars item = false := isMissing_of_isConstant item constant.1
              have head := each item List.mem_cons_self type other inner (path ++ [.index index])
                raw here same leads member (agrees item List.mem_cons_self)
              have tail := fun value => ih constant.2
                (fun other inside => each other (List.mem_cons_of_mem _ inside))
                (fun other inside => agrees other (List.mem_cons_of_mem _ inside)) others later
                (made ++ [value]) (index + 1)
              rw [readItems, itemCoercions, coerceEach]
              simp only [missing, Bool.false_eq_true, if_false]
              rcases head with ⟨value, defined, read, coerced⟩ | ⟨read, refused⟩
              · rcases tail value with ⟨values, readRest, coercedRest⟩ | ⟨readRest, refused⟩
                · refine .inl ⟨value :: values, Action.settles_bind read ?_,
                    Action.settles_bind coerced (Action.settles_bind coercedRest
                      (Action.ensures_done _ rfl))⟩
                  simp only [defined, Bool.false_eq_true, if_false]
                  rw [List.append_assoc] at readRest
                  exact readRest
                · refine .inr ⟨Action.settles_bind read ?_, Action.settles_bind coerced ?_⟩
                  · simp only [defined, Bool.false_eq_true, if_false]
                    exact readRest
                  · exact refused_bind refused _
              · refine .inr ⟨Action.settles_bind read (Action.ensures_done _ rfl), ?_⟩
                exact refused_bind refused _

theorem lookup?_entryCoercions (entries : List (Value × Value)) (key : Value) :
    Value.lookup? (entryCoercions layout entries) key
      = (Value.lookup? entries key).map (coerce layout) := by
  induction entries with
  | nil => rfl
  | cons entry rest ih =>
      obtain ⟨found, value⟩ := entry
      simp only [Value.lookup?] at ih
      simp only [entryCoercions, Value.lookup?, List.find?_cons]
      cases found.isKey key with
      | true => rfl
      | false => exact ih

theorem keys_entryCoercions (entries : List (Value × Value)) :
    (entryCoercions layout entries).map (·.1) = entries.map (·.1) := by
  induction entries with
  | nil => rfl
  | cons entry rest ih => rw [entryCoercions, List.map_cons, List.map_cons, ih]

theorem keys_fieldReaders (fields : List (String × Literal)) :
    (fieldReaders layout vars fields).map (·.1) = fields.map (·.1) := by
  induction fields with
  | nil => rfl
  | cons field rest ih => rw [fieldReaders, List.map_cons, List.map_cons, ih]

/-- What is given under a name, as a literal and as a value: nothing, or parts that are alike. -/
def GivenAlike (answer : Call → σ → Reply × σ) (reader : Option FieldReader)
    (coercion : Option Coercion) (type : TypeRef) : Prop :=
  (reader = none ∧ coercion = none)
    ∨ ∃ read coerce, reader = some read ∧ coercion = some coerce ∧ read.missing = false
      ∧ ∀ path, Alike answer (read.read type) (coerce type path)

theorem alike_declared (types : TextInputTypes layout known) (value : Value)
    (given : List (String × FieldReader)) (held : List (Value × Coercion)) (path : List PathKey)
    (declared : List (Value × InputValue))
    (entries : ∀ entry ∈ declared, InputValue.Declares known entry.2)
    (texts : Value.UnderTexts declared)
    (each : ∀ key input type, (.str key, input) ∈ declared → input.type = .ok type →
      GivenAlike answer (given.lookup key) (Value.lookup? held (.str key)) type)
    (made : List (Value × Value)) :
    (∃ all, (readDeclared given declared made).Settles answer (.ok (.map all))
        ∧ (coerceDeclared layout value held path declared made).Settles answer (.ok all))
      ∨ (readDeclared given declared made).Settles answer (.ok .undefined)
        ∧ (coerceDeclared layout value held path declared made).Ensures answer Refused := by
  induction declared generalizing made with
  | nil => exact .inl ⟨made, Action.ensures_done _ rfl, Action.ensures_done _ rfl⟩
  | cons entry rest ih =>
      obtain ⟨name, input⟩ := entry
      obtain ⟨key, rfl⟩ := texts _ List.mem_cons_self
      obtain ⟨type, inner, typed, leads, member⟩ := entries _ List.mem_cons_self
      have later := ih (fun other inside => entries other (List.mem_cons_of_mem _ inside))
        (fun other inside => texts other (List.mem_cons_of_mem _ inside))
        fun key input type inside => each key input type (List.mem_cons_of_mem _ inside)
      rw [readDeclared, coerceDeclared]
      simp only [Value.string?, Option.bind_some]
      -- the field is given neither in the literal nor in the map, or in both
      rcases each key input type List.mem_cons_self typed with
        ⟨unread, unheld⟩ | ⟨read, coerce, some_, some', here, alike⟩
      · rw [unread, unheld]
        simp only [Option.filter_none]
        cases input.hasDefault with
        | true => exact later _
        | false =>
            simp only [Bool.false_eq_true, if_false, worked_bind typed]
            cases type.isNonNull with
            | true =>
                obtain ⟨text, written⟩ := types.text type inner leads member
                refine .inr ⟨Action.ensures_done _ rfl, ?_⟩
                exact Action.settles_bind (settles_text written) (refused_invalid _ _ _)
            | false => exact later _
      · rw [some_, some']
        simp only [Option.filter_some, here, Bool.not_false, if_true, worked_bind typed]
        rcases alike (path ++ [.name (nameText (.str key))]) with
          ⟨found, defined, reads, coerces⟩ | ⟨reads, refused⟩
        · rcases later (made ++ [(.str key, found)]) with
            ⟨all, readRest, coerceRest⟩ | ⟨readRest, refused⟩
          · refine .inl ⟨all, Action.settles_bind reads ?_, Action.settles_bind coerces coerceRest⟩
            simp only [defined, Bool.false_eq_true, if_false]
            exact readRest
          · refine .inr ⟨Action.settles_bind reads ?_, Action.settles_bind coerces refused⟩
            simp only [defined, Bool.false_eq_true, if_false]
            exact readRest
        · refine .inr ⟨Action.settles_bind reads (Action.ensures_done _ rfl), ?_⟩
          exact refused_bind refused _

theorem refuseUnknown_of_declared (type : String) (declared : Table InputValue)
    (path : List PathKey) (value : Value) (keys : List Value)
    (all : ∀ key ∈ keys, declared.contains key = true) :
    refuseUnknown type declared path value keys = return () := by
  induction keys with
  | nil => rfl
  | cons key rest ih =>
      rw [refuseUnknown, if_pos (all key List.mem_cons_self)]
      exact ih fun other inside => all other (List.mem_cons_of_mem _ inside)

theorem refuseUnknown_of_undeclared (type : String) (declared : Table InputValue)
    (path : List PathKey) (value : Value) (keys : List Value)
    (texts : ∀ key ∈ keys, ∃ text, key.text = .ok text)
    (unknown : ∃ key ∈ keys, declared.contains key = false) :
    ∃ problem, refuseUnknown type declared path value keys = invalid problem path value := by
  induction keys with
  | nil =>
      obtain ⟨key, inside, _⟩ := unknown
      cases inside
  | cons key rest ih =>
      rw [refuseUnknown]
      cases here : declared.contains key with
      | true =>
          rw [if_pos rfl]
          refine ih (fun other inside => texts other (List.mem_cons_of_mem _ inside)) ?_
          obtain ⟨other, inside, absent⟩ := unknown
          rcases List.mem_cons.1 inside with rfl | later
          · rw [here] at absent
            cases absent
          · exact ⟨other, later, absent⟩
      | false =>
          obtain ⟨text, shown⟩ := texts key List.mem_cons_self
          rw [if_neg Bool.false_ne_true, shown]
          exact ⟨_, rfl⟩

theorem unknown_iff (fields : List (String × Literal)) (declared : Table InputValue) :
    ((fieldReaders layout vars fields).any fun field => (declared.find? field.1).isNone) = true
      ↔ ∃ key literal, fields.reverse.lookup key = some literal
        ∧ declared.contains (.str key) = false := by
  have keys : ((fieldReaders layout vars fields).any fun field => (declared.find? field.1).isNone)
      = (fields.map (·.1)).any fun key => (declared.find? key).isNone := by
    have names : (fieldReaders layout vars fields).map (·.1) = fields.map (·.1) :=
      keys_fieldReaders fields
    rw [← names, List.any_map]
    rfl
  rw [keys, List.any_eq_true]
  constructor
  · rintro ⟨key, inside, absent⟩
    obtain ⟨field, given, rfl⟩ := List.mem_map.1 inside
    have some_ : (fields.reverse.lookup field.1).isSome = true :=
      List.lookup_isSome_iff.2 ⟨field, List.mem_reverse.2 given, beq_self_eq_true _⟩
    obtain ⟨literal, found⟩ := Option.isSome_iff_exists.1 some_
    refine ⟨field.1, literal, found, ?_⟩
    rw [Table.contains, Option.isSome_eq_false_iff]
    exact absent
  · rintro ⟨key, literal, found, absent⟩
    refine ⟨key, List.mem_map.2 ⟨_, mem_of_lookup_reverse found, rfl⟩, ?_⟩
    rwa [Table.contains, Option.isSome_eq_false_iff] at absent

/-- An object is read as a type with fields like the map of the plain values of its fields. -/
theorem alike_object (types : TextInputTypes layout known) (fields : List (String × Literal))
    (entries : List (Value × Value)) (plain : Literal.untypedFields [] fields = .ok entries)
    (constant : ∀ field ∈ fields, field.2.isConstant = true)
    (each : ∀ field ∈ fields, LiteralAlike answer layout vars known field.2)
    (start : Nat) (id : TypeId) (declared : Table InputValue)
    (body : (layout.definition id).body = .input (.ok declared))
    (shapes : ∀ entry ∈ declared.entries, InputValue.Declares known entry.2)
    (named : Value.UnderTexts declared.entries) (value : Value)
    (path : List PathKey) :
    AlikeAs answer layout vars (.object start fields) (.named id)
      (readObject (fieldReaders layout vars fields) declared)
      (coerceObject layout value (entryCoercions layout
        (Value.putAll [] entries)) id declared
        path) := by
  intro agrees
  have holds := fun key => Literal.lookup?_untypedFields fields entries [] plain
    (fun entry inside => by cases inside) key
  generalize Value.putAll [] entries = made at holds
  have texts : Value.UnderTexts made := (holds "").1
  -- what is given for a declared field is alike in the literal and in the map
  have given : ∀ key input type, (Value.str key, input) ∈ declared.entries → input.type = .ok type →
      GivenAlike answer ((fieldReaders layout vars fields).reverse.lookup key)
        (Value.lookup? (entryCoercions layout made) (.str key)) type := by
    intro key input type inside typed
    rw [lookup_fieldReaders, lookup?_entryCoercions]
    rcases (holds key).2 with ⟨none_, kept⟩ | ⟨literal, held, some_, untyped, kept⟩
    · exact .inl ⟨by rw [none_]; rfl, by rw [kept]; rfl⟩
    · obtain ⟨type', inner, typed', leads, member⟩ := shapes _ inside
      cases typed.symm.trans typed'
      refine .inr ⟨_, _, by rw [some_]; rfl, by rw [kept]; rfl,
        isMissing_of_isConstant _ (constant _ (mem_of_lookup_reverse some_)), fun path => ?_⟩
      exact each _ (mem_of_lookup_reverse some_) type type inner path held untyped
        (sameInEffect_refl type inner leads) leads member fun part leaf position =>
          agrees part leaf (.field body inside typed some_ position)
  have declaredAlike := alike_declared types value (fieldReaders layout vars fields).reverse
    (entryCoercions layout made) path declared.entries shapes named given []
  -- the map has the names that the literal gives, and no others
  have keys : ∀ key, .str key ∈ (entryCoercions layout made).map (·.1)
      ↔ ∃ literal, fields.reverse.lookup key = some literal := by
    intro key
    rw [keys_entryCoercions, ← Value.isSome_lookup?_str texts]
    rcases (holds key).2 with ⟨none_, kept⟩ | ⟨literal, held, some_, untyped, kept⟩
    · rw [kept, none_]
      exact ⟨(fun found => by cases found), by rintro ⟨literal, ⟨⟩⟩⟩
    · rw [kept]
      exact ⟨fun _ => ⟨literal, some_⟩, fun _ => rfl⟩
  have keyTexts : ∀ key ∈ (entryCoercions layout made).map (·.1), ∃ text, key = .str text := by
    intro key inside
    rw [keys_entryCoercions] at inside
    obtain ⟨entry, there, rfl⟩ := List.mem_map.1 inside
    exact texts entry there
  rw [readObject, coerceObject]
  by_cases unknown : ((fieldReaders layout vars fields).any fun field =>
      (declared.find? field.1).isNone) = true
  · rw [if_pos unknown]
    obtain ⟨key, literal, found, absent⟩ := (unknown_iff fields declared).1 unknown
    have shown : ∀ key ∈ (entryCoercions layout made).map (·.1), ∃ text, key.text = .ok text := by
      intro key inside
      obtain ⟨text, rfl⟩ := keyTexts key inside
      exact ⟨text, rfl⟩
    obtain ⟨problem, same⟩ := refuseUnknown_of_undeclared (layout.label id) declared path value _
      shown ⟨_, (keys key).2 ⟨literal, found⟩, absent⟩
    rw [same]
    refine .inr ⟨Action.ensures_done _ rfl, ?_⟩
    rcases declaredAlike with ⟨all, _, coerces⟩ | ⟨_, coerces⟩
    · exact Action.settles_bind coerces (refused_bind (refused_invalid problem path value) _)
    · exact refused_bind coerces _
  · rw [if_neg unknown]
    have knows : ∀ key ∈ (entryCoercions layout made).map (·.1), declared.contains key = true := by
      intro key inside
      obtain ⟨text, rfl⟩ := keyTexts key inside
      obtain ⟨literal, found⟩ := (keys text).1 inside
      by_contra absent
      exact unknown ((unknown_iff fields declared).2 ⟨text, literal, found, by simpa using absent⟩)
    rcases declaredAlike with ⟨all, reads, coerces⟩ | ⟨reads, refused⟩
    · refine .inl ⟨.map all, rfl, reads, Action.settles_bind coerces ?_⟩
      rw [refuseUnknown_of_declared _ _ _ _ _ knows]
      exact Action.ensures_done _ rfl
    · exact .inr ⟨reads, refused_bind refused _⟩

theorem alike_atom (types : TextInputTypes layout known) (literal : Literal) (raw : Value)
    (plain : literal.untyped [] = .ok raw) (null : literal.isNull = raw.isNull)
    (single : ∀ start items, literal ≠ .list start items) (type other : TypeRef)
    (same : SameInEffect layout type other) (inner : TypeId) (leads : other.innermost = .ok inner)
    (member : known inner) (path : List PathKey) :
    AlikeAs answer layout vars literal type (readThrough layout vars literal {} type)
      (coerceThrough layout raw {} other path) :=
  alike_through types plain null ⟨.inl ⟨rfl, rfl, single⟩, .inl ⟨rfl, rfl⟩⟩ type other same inner
    leads member path

mutual

theorem literalAlike (types : TextInputTypes layout known) (literal : Literal)
    (constant : literal.isConstant = true) : LiteralAlike answer layout vars known literal := by
  match literal with
  | .reference start name => cases constant
  | .list start items =>
      intro type other inner path raw plain same leads member
      have whole := plain
      simp only [Literal.untyped] at plain
      cases untyped : Literal.untypedItems [] items with
      | error fault =>
          rw [untyped] at plain
          cases plain
      | ok raws =>
          rw [untyped] at plain
          cases plain
          refine alike_through types whole rfl ⟨.inr ⟨_, _, rfl, rfl, ?_⟩, .inl ⟨rfl, rfl⟩⟩ type
            other same inner leads member path
          intro of other inner path same leads member agrees
          have items := alike_items of other same inner leads member items constant
            (itemsAlike types items constant)
            (fun item inside part leaf position => agrees part leaf (.item inside position))
            raws untyped [] 0 path
          rcases items with ⟨values, reads, coerces⟩ | ⟨reads, refused⟩
          · exact .inl ⟨.list values, rfl, reads,
              Action.settles_bind coerces (Action.ensures_done _ rfl)⟩
          · exact .inr ⟨reads, refused_bind refused _⟩
  | .object start fields =>
      intro type other inner path raw plain same leads member
      have whole := plain
      simp only [Literal.untyped] at plain
      cases untyped : Literal.untypedFields [] fields with
      | error fault =>
          rw [untyped] at plain
          cases plain
      | ok entries =>
          rw [untyped] at plain
          cases plain
          refine alike_through types whole rfl ⟨.inl ⟨rfl, rfl, ?_⟩, .inr ⟨_, _, rfl, rfl, ?_⟩⟩
            type other same inner leads member path
          · rintro start items ⟨⟩
          · intro id declared path body shapes named
            exact alike_object types fields entries untyped (Literal.mem_fieldsConstant constant)
              (fieldsAlike types fields constant) start id declared body shapes named _ path
  | .int start numeral =>
      intro type other inner path raw plain same leads member
      have whole := plain
      simp only [Literal.untyped] at plain
      cases value : Literal.readInt numeral with
      | error fault =>
          rw [value] at plain
          cases plain
      | ok size =>
          rw [value] at plain
          cases plain
          exact alike_atom types _ _ whole rfl (by rintro _ _ ⟨⟩) type other same inner leads
            member path
  | .float .. | .string .. | .boolean .. | .null _ | .enum .. =>
      intro type other inner path raw plain same leads member
      cases plain
      exact alike_atom types _ _ rfl rfl (by rintro _ _ ⟨⟩) type other same inner leads member path

theorem itemsAlike (types : TextInputTypes layout known) (items : List Literal)
    (constant : Literal.allConstant items = true) :
    ∀ item ∈ items, LiteralAlike answer layout vars known item := by
  match items with
  | [] =>
      intro item inside
      cases inside
  | item :: rest =>
      intro other inside
      rw [Literal.allConstant, Bool.and_eq_true] at constant
      rcases List.mem_cons.1 inside with same | later
      · rw [same]
        exact literalAlike types item constant.1
      · exact itemsAlike types rest constant.2 other later

theorem fieldsAlike (types : TextInputTypes layout known) (fields : List (String × Literal))
    (constant : Literal.fieldsConstant fields = true) :
    ∀ field ∈ fields, LiteralAlike answer layout vars known field.2 := by
  match fields with
  | [] =>
      intro field inside
      cases inside
  | (name, literal) :: rest =>
      intro other inside
      rw [Literal.fieldsConstant, Bool.and_eq_true] at constant
      rcases List.mem_cons.1 inside with same | later
      · rw [same]
        exact literalAlike types literal constant.1
      · exact fieldsAlike types rest constant.2 other later

end

end Input

end GraphQL
