import GraphQL.Input.Arguments
import GraphQL.Proofs.AcceptedInputs

/-!
Arguments fit their types. Whatever a document writes, the arguments that a field or a directive
receives are those that are supplied or have a default, and each of them is a value of its type, at
every depth: nothing that is not nullable is ever null.
-/

namespace GraphQL

namespace Input

variable {σ : Type} {answer : Call → σ → Reply × σ} {layout : Layout} {vars : Variables}
  {known : TypeId → Prop}

/-- What the functions of the leaf type in effect return. -/
def Parsed (answer : Call → σ → Reply × σ) (layout : Layout) (leaf : TypeId) (value : Value) :
    Prop :=
  (∃ literal vars state, ((layout.parseLiteral (layout.leafInEffect leaf) literal vars).run answer
      state).1 = .ok value)
    ∨ ∃ raw state, ((layout.parseValue (layout.leafInEffect leaf) raw).run answer state).1
      = .ok value

mutual

/-- The values of an input type. -/
inductive Conforms (answer : Call → σ → Reply × σ) (layout : Layout) : TypeRef → Value → Prop where
  | nonNull {of : TypeRef} {value : Value} : value ≠ .null → Conforms answer layout of value →
    Conforms answer layout (.nonNull of) value
  | null {type : TypeRef} : type.isNonNull = false → Conforms answer layout type .null
  | list {of : TypeRef} {value : Value} {items : List Value} : value.listed? = some items →
    (∀ item ∈ items, Conforms answer layout of item) → Conforms answer layout (.list of) value
  | object {id : TypeId} {declared : Table InputValue} {entries : List (Value × Value)} :
    (layout.definition id).body = .input (.ok declared) →
    FieldsConform answer layout declared.entries entries →
    Conforms answer layout (.named id) (.map entries)
  | leaf {id : TypeId} {value : Value} : (layout.kindOf id).isLeaf = true →
    Parsed answer layout id value → Conforms answer layout (.named id) value

/-- The entries of an object: declared fields in their order, of which only a nullable one without a
default may be left out. -/
inductive FieldsConform (answer : Call → σ → Reply × σ) (layout : Layout) :
    List (Value × InputValue) → List (Value × Value) → Prop where
  | nil : FieldsConform answer layout [] []
  | present {name value : Value} {input : InputValue} {type : TypeRef}
      {rest : List (Value × InputValue)} {entries : List (Value × Value)} :
    input.type = .ok type → Conforms answer layout type value →
    FieldsConform answer layout rest entries →
    FieldsConform answer layout ((name, input) :: rest) ((name, value) :: entries)
  | absent {name : Value} {input : InputValue} {type : TypeRef}
      {rest : List (Value × InputValue)} {entries : List (Value × Value)} :
    input.hasDefault = false → input.type = .ok type → type.isNonNull = false →
    FieldsConform answer layout rest entries →
    FieldsConform answer layout ((name, input) :: rest) entries

end

/-- The default of an input is a value of its type. -/
def DefaultConforms (answer : Call → σ → Reply × σ) (layout : Layout) (input : InputValue) : Prop :=
  input.hasDefault = true → ∀ type, input.type = .ok type →
    Conforms answer layout type input.default

/-- The places at which variables stand in a literal that is read as a type. -/
inductive VariablePosition (layout : Layout) : Literal → TypeRef → String → TypeRef → Prop where
  | here {start : Nat} {name : String} {type : TypeRef} :
    VariablePosition layout (.reference start name) type name type
  | nonNull {literal : Literal} {type at_ : TypeRef} {name : String} :
    literal.reference? = none → VariablePosition layout literal type name at_ →
    VariablePosition layout literal (.nonNull type) name at_
  | single {literal : Literal} {type at_ : TypeRef} {name : String} :
    literal.reference? = none → (∀ start items, literal ≠ .list start items) →
    VariablePosition layout literal type name at_ →
    VariablePosition layout literal (.list type) name at_
  | item {start : Nat} {items : List Literal} {item : Literal} {type at_ : TypeRef}
      {name : String} :
    item ∈ items → VariablePosition layout item type name at_ →
    VariablePosition layout (.list start items) (.list type) name at_
  | field {start : Nat} {fields : List (String × Literal)} {declared : Table InputValue}
      {id : TypeId} {key name : String} {input : InputValue} {value : Literal}
      {type at_ : TypeRef} :
    (layout.definition id).body = .input (.ok declared) → (.str key, input) ∈ declared.entries →
    input.type = .ok type → fields.reverse.lookup key = some value →
    VariablePosition layout value type name at_ →
    VariablePosition layout (.object start fields) (.named id) name at_

/-- A variable that stands in a literal holds nothing, or a value that is at most null where its
place asks for more. -/
def VariablesFit (answer : Call → σ → Reply × σ) (layout : Layout) (vars : Variables)
    (literal : Literal) (type : TypeRef) : Prop :=
  ∀ name at_ value, VariablePosition layout literal type name at_ → vars.lookup name = some value →
    value = .null ∨ value = .undefined ∨ Conforms answer layout at_.nullable value

/-- The functions of leaf types read a literal as something, or reject it. -/
def LeavesParse (answer : Call → σ → Reply × σ) (layout : Layout) (known : TypeId → Prop) : Prop :=
  ∀ id literal vars, known id → (layout.kindOf id).isLeaf = true → literal.isNull = false →
    literal.reference? = none →
    (layout.parseLiteral (layout.leafInEffect id) literal vars).Ensures answer fun result =>
      (∃ value, result = .ok value ∧ value ≠ .null)
        ∨ ∃ failure, result = .error failure ∧ failure.kind.rejectsInput = true

/-- The defaults of the fields of input types are values of their types. -/
def DefaultsConform (answer : Call → σ → Reply × σ) (layout : Layout) (known : TypeId → Prop) :
    Prop :=
  ∀ id declared, known id → (layout.definition id).body = .input (.ok declared) →
    ∀ entry ∈ declared.entries, DefaultConforms answer layout entry.2

/-- A reading that comes to a value of the type, or to none. -/
def Reads (answer : Call → σ → Reply × σ) (layout : Layout) (type : TypeRef)
    (reading : Action Value) : Prop :=
  reading.Ensures answer fun result => ∃ value, result = .ok value
    ∧ (value = .undefined ∨ Conforms answer layout type value)

/-- A reading of a literal that is not null comes to a value that is not null, or to none. -/
def ReadsPresent (answer : Call → σ → Reply × σ) (layout : Layout) (type : TypeRef)
    (reading : Action Value) : Prop :=
  reading.Ensures answer fun result => ∃ value, result = .ok value
    ∧ (value = .undefined ∨ value ≠ .null ∧ Conforms answer layout type value)

theorem reads_done {type : TypeRef} {value : Value}
    (fits : value = .undefined ∨ Conforms answer layout type value) :
    Reads answer layout type (return value) :=
  Action.ensures_done _ ⟨value, rfl, fits⟩

theorem readsPresent_undefined (type : TypeRef) :
    ReadsPresent answer layout type (return .undefined) :=
  Action.ensures_done _ ⟨.undefined, rfl, .inl rfl⟩

theorem ReadsPresent.reads {type : TypeRef} {reading : Action Value}
    (present : ReadsPresent answer layout type reading) : Reads answer layout type reading :=
  present.mono fun _ ⟨value, same, fits⟩ => ⟨value, same, fits.imp_right And.right⟩

/-- The parts of a literal are read as values of their types. -/
structure PartsRead (answer : Call → σ → Reply × σ) (layout : Layout) (vars : Variables)
    (known : TypeId → Prop) (literal : Literal) (parts : Parts) : Prop where
  items : (parts.items = none ∧ ∀ start items, literal ≠ .list start items)
    ∨ ∃ read, parts.items = some read ∧ ∀ type inner, type.innermost = .ok inner → known inner →
      VariablesFit answer layout vars literal (.list type) →
        ReadsPresent answer layout (.list type) (read type)
  fields : parts.fields = none
    ∨ ∃ read, parts.fields = some read ∧ ∀ id declared, known id →
      (layout.definition id).body = .input (.ok declared) →
      (∀ entry ∈ declared.entries, InputValue.Declares known entry.2) →
      VariablesFit answer layout vars literal (.named id) →
        ReadsPresent answer layout (.named id) (read id declared)

variable {literal : Literal} {parts : Parts}

theorem readsPresent_named (types : InputTypes layout known)
    (parse : LeavesParse answer layout known) (present : literal.isNull = false)
    (plain : literal.reference? = none) (reads : PartsRead answer layout vars known literal parts)
    (id : TypeId) (member : known id)
    (fit : VariablesFit answer layout vars literal (.named id)) :
    ReadsPresent answer layout (.named id) (readNamed layout vars literal parts id) := by
  rcases types.shape id member with leaf | ⟨declared, body, entries⟩
  · rw [readNamed_leaf leaf]
    have parsed : (layout.parseLiteral (layout.leafInEffect id) literal vars).Ensures answer
        fun result => ((∃ value, result = .ok value ∧ value ≠ .null)
          ∨ ∃ failure, result = .error failure ∧ failure.kind.rejectsInput = true)
        ∧ ∃ state, ((layout.parseLiteral (layout.leafInEffect id) literal vars).run answer
          state).1 = result :=
      fun state => ⟨parse id literal vars member leaf present plain state, state, rfl⟩
    refine Action.ensures_andThen parsed fun result both => ?_
    obtain ⟨⟨value, rfl, some_⟩ | ⟨failure, rfl, rejects⟩, state, came⟩ := both
    · exact Action.ensures_done _ ⟨value, rfl, .inr ⟨some_, .leaf leaf (.inl ⟨_, _, _, came⟩)⟩⟩
    · simp only [rejects, if_true]
      exact readsPresent_undefined _
  · rw [readNamed, body]
    rcases reads.fields with none_ | ⟨read, some_, each⟩
    · rw [none_]
      exact readsPresent_undefined _
    · rw [some_]
      exact each id declared member body entries fit

theorem readsPresent_through (types : InputTypes layout known)
    (parse : LeavesParse answer layout known) (present : literal.isNull = false)
    (plain : literal.reference? = none) (reads : PartsRead answer layout vars known literal parts)
    (type : TypeRef) (inner : TypeId) (leads : type.innermost = .ok inner) (member : known inner)
    (fit : VariablesFit answer layout vars literal type) :
    ReadsPresent answer layout type (readThrough layout vars literal parts type) := by
  induction type with
  | nonNull of ih =>
      rw [readThrough, present]
      have inside := ih leads fun name at_ value position =>
        fit name at_ value (.nonNull plain position)
      exact inside.mono fun _ ⟨value, same, fits⟩ =>
        ⟨value, same, fits.imp_right fun both => ⟨both.1, .nonNull both.1 both.2⟩⟩
  | list of ih =>
      rw [readThrough, present]
      rcases reads.items with ⟨none_, single⟩ | ⟨read, some_, each⟩
      · rw [none_]
        have inside := ih leads fun name at_ value position =>
          fit name at_ value (.single plain single position)
        refine Action.ensures_bind inside (fun value found => ?_) ?_
        · obtain ⟨_, ⟨⟩, fits⟩ := found
          cases missing : value.isUndefined with
          | true => exact readsPresent_undefined _
          | false =>
              rcases fits with rfl | ⟨some_, conforms⟩
              · cases missing
              · refine Action.ensures_done _ ⟨_, rfl, .inr ⟨(by rintro ⟨⟩), .list rfl ?_⟩⟩
                intro item inside
                rw [List.mem_singleton.1 inside]
                exact conforms
        · rintro failure ⟨_, ⟨⟩, _⟩
      · rw [some_]
        have inside : of.innermost = .ok inner := leads
        simp only [Bool.false_eq_true, if_false, worked_bind (TypeRef.present_of_innermost inside)]
        exact each of inner leads member fit
  | named id =>
      cases leads
      rw [readThrough, present]
      exact readsPresent_named types parse present plain reads inner member fit
  | broken fault => cases leads

theorem reads_null (start : Nat) (type : TypeRef) (inner : TypeId)
    (leads : type.innermost = .ok inner) :
    Reads answer layout type (readThrough layout vars (.null start) parts type) := by
  cases type with
  | nonNull of => exact reads_done (.inl rfl)
  | list of => exact reads_done (.inr (.null rfl))
  | named id => exact reads_done (.inr (.null rfl))
  | broken fault => cases leads

/-- A variable is taken as it is, unless it is null where that is not allowed. -/
theorem reads_reference (start : Nat) (name : String) (type : TypeRef)
    (fit : VariablesFit answer layout vars (.reference start name) type) :
    Reads answer layout type (readReference vars name type) := by
  rw [readReference]
  cases held : vars.lookup name with
  | none => exact reads_done (.inl rfl)
  | some value =>
      simp only
      split
      · exact reads_done (.inl rfl)
      · next allowed =>
          rcases fit name type value .here held with rfl | rfl | conforms
          · refine reads_done (.inr (.null ?_))
            simpa [Value.isNull] using allowed
          · exact reads_done (.inl rfl)
          · refine reads_done (.inr ?_)
            cases type with
            | nonNull of =>
                refine .nonNull (fun null => ?_) conforms
                rw [null] at allowed
                exact allowed rfl
            | _ => exact conforms

/-- A literal is read as a value of every type whose places its variables fit, or as none. -/
def LiteralReads (answer : Call → σ → Reply × σ) (layout : Layout) (vars : Variables)
    (known : TypeId → Prop) (literal : Literal) : Prop :=
  ∀ type inner, type.innermost = .ok inner → known inner →
    VariablesFit answer layout vars literal type →
      Reads answer layout type (readLiteral layout vars literal type)

theorem reads_items (type : TypeRef) (inner : TypeId) (leads : type.innermost = .ok inner)
    (member : known inner) (items : List Literal)
    (each : ∀ item ∈ items, LiteralReads answer layout vars known item)
    (fit : ∀ item ∈ items, VariablesFit answer layout vars item type) (made : List Value) :
    (readItems layout vars items type made).Ensures answer fun result =>
      ∃ value, result = .ok value ∧ (value = .undefined ∨ ∃ values, value = .list (made ++ values)
        ∧ ∀ item ∈ values, Conforms answer layout type item) := by
  induction items generalizing made with
  | nil =>
      refine Action.ensures_done _ ⟨_, rfl, .inr ⟨[], by rw [List.append_nil], ?_⟩⟩
      intro item inside
      cases inside
  | cons item rest ih =>
      have later := fun value => ih (fun other inside => each other (List.mem_cons_of_mem _ inside))
        (fun other inside => fit other (List.mem_cons_of_mem _ inside)) (made ++ [value])
      have goes : ∀ value, Conforms answer layout type value →
          (readItems layout vars rest type (made ++ [value])).Ensures answer fun result =>
            ∃ value, result = .ok value ∧ (value = .undefined ∨ ∃ values,
              value = .list (made ++ values)
                ∧ ∀ item ∈ values, Conforms answer layout type item) := by
        intro value conforms
        refine (later value).mono fun result ⟨whole, same, fits⟩ => ⟨whole, same, ?_⟩
        refine fits.imp_right fun ⟨values, listed, all⟩ => ⟨value :: values, ?_, ?_⟩
        · rw [listed, List.append_assoc]
          rfl
        · intro other inside
          rcases List.mem_cons.1 inside with rfl | inside
          · exact conforms
          · exact all other inside
      rw [readItems]
      split
      · split
        · exact Action.ensures_done _ ⟨_, rfl, .inl rfl⟩
        · next allowed => exact goes .null (.null (Bool.eq_false_iff.2 allowed))
      · have read := each item List.mem_cons_self type inner leads member
          (fit item List.mem_cons_self)
        refine Action.ensures_bind read (fun value found => ?_) (by rintro failure ⟨_, ⟨⟩, _⟩)
        obtain ⟨_, ⟨⟩, fits⟩ := found
        cases missing : value.isUndefined with
        | true => exact Action.ensures_done _ ⟨_, rfl, .inl rfl⟩
        | false =>
            rcases fits with rfl | conforms
            · cases missing
            · exact goes value conforms

theorem reads_declared (given : List (String × FieldReader))
    (declared : List (Value × InputValue))
    (entries : ∀ entry ∈ declared, InputValue.Declares known entry.2)
    (defaults : ∀ entry ∈ declared, DefaultConforms answer layout entry.2)
    (each : ∀ key input type inner reader, (.str key, input) ∈ declared → input.type = .ok type →
      type.innermost = .ok inner → known inner → given.lookup key = some reader →
        Reads answer layout type (reader.read type)) (made : List (Value × Value)) :
    (readDeclared given declared made).Ensures answer fun result =>
      ∃ value, result = .ok value ∧ (value = .undefined ∨ ∃ entries, value = .map (made ++ entries)
        ∧ FieldsConform answer layout declared entries) := by
  induction declared generalizing made with
  | nil => exact Action.ensures_done _ ⟨_, rfl, .inr ⟨[], by rw [List.append_nil], .nil⟩⟩
  | cons entry rest ih =>
      obtain ⟨name, input⟩ := entry
      obtain ⟨type, inner, typed, leads, member⟩ := entries _ List.mem_cons_self
      have later := ih (fun other inside => entries other (List.mem_cons_of_mem _ inside))
        (fun other inside => defaults other (List.mem_cons_of_mem _ inside))
        fun key input type inner reader inside =>
          each key input type inner reader (List.mem_cons_of_mem _ inside)
      -- a field that is given, or takes its default, goes before the rest of the object
      have goes : ∀ value, Conforms answer layout type value →
          (readDeclared given rest (made ++ [(name, value)])).Ensures answer fun result =>
            ∃ whole, result = .ok whole ∧ (whole = .undefined ∨ ∃ entries,
              whole = .map (made ++ entries)
                ∧ FieldsConform answer layout ((name, input) :: rest) entries) := by
        intro value conforms
        refine (later (made ++ [(name, value)])).mono fun result ⟨whole, same, fits⟩ =>
          ⟨whole, same, ?_⟩
        refine fits.imp_right fun ⟨entries, mapped, all⟩ =>
          ⟨(name, value) :: entries, ?_, .present typed conforms all⟩
        rw [mapped, List.append_assoc]
        rfl
      rw [readDeclared]
      cases found : (name.string?.bind fun key => given.lookup key).filter (!·.missing) with
      | some reader =>
          have looked := (Option.filter_eq_some_iff.1 found).1
          obtain ⟨key, text, here⟩ := Option.bind_eq_some_iff.1 looked
          have read : Reads answer layout type (reader.read type) := by
            cases name with
            | str other =>
                cases text
                exact each key input type inner reader List.mem_cons_self typed leads member here
            | _ => cases text
          simp only [worked_bind typed]
          refine Action.ensures_bind read (fun value found => ?_) (by rintro failure ⟨_, ⟨⟩, _⟩)
          obtain ⟨_, ⟨⟩, fits⟩ := found
          cases missing : value.isUndefined with
          | true => exact Action.ensures_done _ ⟨_, rfl, .inl rfl⟩
          | false =>
              rcases fits with rfl | conforms
              · cases missing
              · exact goes value conforms
      | none =>
          cases preset : input.hasDefault with
          | true => exact goes input.default (defaults _ List.mem_cons_self preset type typed)
          | false =>
              simp only [Bool.false_eq_true, if_false, worked_bind typed]
              split
              · exact Action.ensures_done _ ⟨_, rfl, .inl rfl⟩
              · next optional =>
                  refine (later made).mono fun result ⟨whole, same, fits⟩ => ⟨whole, same, ?_⟩
                  exact fits.imp_right fun ⟨entries, mapped, all⟩ =>
                    ⟨entries, mapped, .absent preset typed (Bool.eq_false_iff.2 optional) all⟩

theorem reads_object (defaults : DefaultsConform answer layout known)
    (fields : List (String × Literal))
    (each : ∀ field ∈ fields, LiteralReads answer layout vars known field.2) (start : Nat)
    (id : TypeId) (member : known id) (declared : Table InputValue)
    (body : (layout.definition id).body = .input (.ok declared))
    (shapes : ∀ entry ∈ declared.entries, InputValue.Declares known entry.2)
    (fit : VariablesFit answer layout vars (.object start fields) (.named id)) :
    ReadsPresent answer layout (.named id)
      (readObject (fieldReaders layout vars fields) declared) := by
  rw [readObject]
  split
  · exact readsPresent_undefined _
  · have read := reads_declared (fieldReaders layout vars fields).reverse
      declared.entries shapes (defaults id declared member body) ?_ []
    · refine read.mono fun result ⟨value, same, fits⟩ => ⟨value, same, ?_⟩
      refine fits.imp_right fun ⟨entries, mapped, all⟩ => ?_
      rw [mapped, List.nil_append]
      exact ⟨by rintro ⟨⟩, .object body all⟩
    · intro key input type inner reader inside typed leads member found
      rw [lookup_fieldReaders, Option.map_eq_some_iff] at found
      obtain ⟨literal, given, rfl⟩ := found
      exact each _ (mem_of_lookup_reverse given) type inner leads member
        fun name at_ value position => fit name at_ value (.field body inside typed given position)

mutual

theorem literalReads (types : InputTypes layout known) (parse : LeavesParse answer layout known)
    (defaults : DefaultsConform answer layout known) (literal : Literal) :
    LiteralReads answer layout vars known literal := by
  match literal with
  | .reference start name =>
      intro type inner leads member fit
      exact reads_reference start name type fit
  | .null start =>
      intro type inner leads member fit
      exact reads_null start type inner leads
  | .list start items =>
      intro type inner leads member fit
      refine (readsPresent_through types parse rfl rfl ⟨.inr ⟨_, rfl, ?_⟩, .inl rfl⟩ type inner
        leads member fit).reads
      intro of inner leads member fit
      have read := reads_items of inner leads member items (itemsRead types parse defaults items)
        (fun item inside name at_ value position => fit name at_ value (.item inside position)) []
      refine read.mono fun result ⟨value, same, fits⟩ => ⟨value, same, ?_⟩
      refine fits.imp_right fun ⟨values, listed, all⟩ => ?_
      rw [listed]
      exact ⟨by rintro ⟨⟩, .list rfl all⟩
  | .object start fields =>
      intro type inner leads member fit
      refine (readsPresent_through types parse rfl rfl
        ⟨.inl ⟨rfl, by rintro start items ⟨⟩⟩, .inr ⟨_, rfl, ?_⟩⟩ type inner leads member fit).reads
      intro id declared member body shapes fit
      exact reads_object defaults fields (fieldsRead types parse defaults fields) start id member
        declared body shapes fit
  | .int .. | .float .. | .string .. | .boolean .. | .enum .. =>
      intro type inner leads member fit
      exact (readsPresent_through types parse rfl rfl
        ⟨.inl ⟨rfl, by rintro start items ⟨⟩⟩, .inl rfl⟩ type inner leads member fit).reads

theorem itemsRead (types : InputTypes layout known) (parse : LeavesParse answer layout known)
    (defaults : DefaultsConform answer layout known) (items : List Literal) :
    ∀ item ∈ items, LiteralReads answer layout vars known item := by
  match items with
  | [] =>
      intro item inside
      cases inside
  | item :: rest =>
      intro other inside
      rcases List.mem_cons.1 inside with same | later
      · rw [same]
        exact literalReads types parse defaults item
      · exact itemsRead types parse defaults rest other later

theorem fieldsRead (types : InputTypes layout known) (parse : LeavesParse answer layout known)
    (defaults : DefaultsConform answer layout known) (fields : List (String × Literal)) :
    ∀ field ∈ fields, LiteralReads answer layout vars known field.2 := by
  match fields with
  | [] =>
      intro field inside
      cases inside
  | (name, literal) :: rest =>
      intro other inside
      rcases List.mem_cons.1 inside with same | later
      · rw [same]
        exact literalReads types parse defaults literal
      · exact fieldsRead types parse defaults rest other later

end

section Arguments

variable {place : Nat} {given : List ArgumentNode}

/-- An argument is written, and not as a variable without a value. -/
def isSupplied (vars : Variables) (given : List ArgumentNode) (name : Value) : Bool :=
  (given.reverse.find? fun found => name.equals (.str found.name)).any fun found =>
    !isMissing vars found.value

/-- The arguments that are bound: those that are supplied or have a default, in their order, each
with a value of its type. One that is left out may be null. -/
inductive ArgumentsConform (answer : Call → σ → Reply × σ) (layout : Layout) (vars : Variables)
    (given : List ArgumentNode) : List (Value × InputValue) → List (Value × Value) → Prop where
  | nil : ArgumentsConform answer layout vars given [] []
  | bound {name value : Value} {input : InputValue} {type : TypeRef}
      {rest : List (Value × InputValue)} {entries : List (Value × Value)} :
    (isSupplied vars given name || input.hasDefault) = true → input.type = .ok type →
    (isSupplied vars given name = false → value = input.default) →
    Conforms answer layout type value → ArgumentsConform answer layout vars given rest entries →
    ArgumentsConform answer layout vars given ((name, input) :: rest) ((name, value) :: entries)
  | omitted {name : Value} {input : InputValue} {type : TypeRef}
      {rest : List (Value × InputValue)} {entries : List (Value × Value)} :
    (isSupplied vars given name || input.hasDefault) = false → input.type = .ok type →
    type.isNonNull = false → ArgumentsConform answer layout vars given rest entries →
    ArgumentsConform answer layout vars given ((name, input) :: rest) entries

/-- What becomes of one argument: an error, a value of its type, or nothing if it may be left
out. -/
def Fits (answer : Call → σ → Reply × σ) (layout : Layout) (supplied : Bool) (input : InputValue)
    (type : TypeRef) (result : Except Failure (Option Value)) : Prop :=
  (∃ error, result = .error (.response error))
    ∨ (∃ value, result = .ok (some value) ∧ (supplied || input.hasDefault) = true
      ∧ (supplied = false → value = input.default) ∧ Conforms answer layout type value)
    ∨ result = .ok none ∧ (supplied || input.hasDefault) = false ∧ type.isNonNull = false

variable {name : Value} {input : InputValue} {type : TypeRef}

theorem fits_omitted (typed : input.type = .ok type)
    (default : DefaultConforms answer layout input) (refuse : TypeRef → Action (Option Value))
    (refuses : (refuse type).Ensures answer fun result =>
      ∃ error, result = .error (.response error)) :
    (omitted input refuse).Ensures answer (Fits answer layout false input type) := by
  rw [omitted]
  cases preset : input.hasDefault with
  | true => exact Action.ensures_done _ (.inr (.inl ⟨_, rfl, preset, (fun _ => rfl),
      default preset type typed⟩))
  | false =>
      simp only [Bool.false_eq_true, if_false, worked_bind typed]
      split
      · exact refuses.mono fun _ => .inl
      · next optional =>
          exact Action.ensures_done _ (.inr (.inr ⟨rfl, preset, Bool.eq_false_iff.2 optional⟩))

theorem fits_refused (types : InputTypes layout known) {inner : TypeId}
    (leads : type.innermost = .ok inner) (member : known inner) (start : Nat)
    (problem : String → ArgumentProblem) :
    (do refuseArgument start name (problem (← layout.text type)) :
        Action (Option Value)).Ensures answer fun result =>
      ∃ error, result = .error (.response error) := by
  obtain ⟨text, written⟩ := types.text type inner leads member
  exact Action.settles_bind (settles_text written) (Action.ensures_done _ ⟨_, rfl⟩)

theorem fits_readArgument (types : InputTypes layout known)
    (parse : LeavesParse answer layout known) (defaults : DefaultsConform answer layout known)
    {inner : TypeId} (leads : type.innermost = .ok inner) (member : known inner)
    (literal : Literal) (fit : VariablesFit answer layout vars literal type) :
    (readArgument layout vars name type literal).Ensures answer
      (Fits answer layout true input type) := by
  rw [readArgument]
  split
  · exact (fits_refused types leads member _ .null).mono fun _ => .inl
  · have read := literalReads types parse defaults literal type inner leads member fit
    refine Action.ensures_bind read (fun value found => ?_) (by rintro failure ⟨_, ⟨⟩, _⟩)
    obtain ⟨_, ⟨⟩, fits⟩ := found
    cases missing : value.isUndefined with
    | true => exact Action.ensures_done _ (.inl ⟨_, rfl⟩)
    | false =>
        rcases fits with rfl | conforms
        · cases missing
        · exact Action.ensures_done _
            (.inr (.inl ⟨value, rfl, rfl, (fun absent => by cases absent), conforms⟩))

theorem isMissing_eq (literal : Literal) :
    isMissing vars literal
      = (literal.reference?.filter fun variable_ => (vars.lookup variable_).isNone).isSome := by
  cases literal with
  | reference start name =>
      simp only [isMissing, Literal.reference?, Option.filter_some]
      cases (vars.lookup name).isNone <;> rfl
  | _ => rfl

theorem fits_bindArgument (types : InputTypes layout known)
    (parse : LeavesParse answer layout known) (defaults : DefaultsConform answer layout known)
    (typed : input.type = .ok type) {inner : TypeId} (leads : type.innermost = .ok inner)
    (member : known inner) (default : DefaultConforms answer layout input)
    (fit : ∀ literal, GivenAs given name literal → VariablesFit answer layout vars literal type) :
    (bindArgument layout vars place given name input).Ensures answer
      (Fits answer layout (isSupplied vars given name) input type) := by
  rw [bindArgument, worked_bind typed, isSupplied]
  cases found : given.reverse.find? fun found => name.equals (.str found.name) with
  | none => exact fits_omitted typed default _ (fits_refused types leads member _ .missing)
  | some node =>
      simp only [Option.any_some]
      cases unset : node.value.reference?.filter
        fun variable_ => (vars.lookup variable_).isNone with
      | some variable_ =>
          rw [isMissing_eq, unset]
          exact fits_omitted typed default _
            (fits_refused types leads member _ (.unboundVariable variable_))
      | none =>
          rw [isMissing_eq, unset]
          exact fits_readArgument types parse defaults leads member node.value
            (fit node.value ⟨node, found, rfl⟩)

theorem fits_bindArguments (types : InputTypes layout known)
    (parse : LeavesParse answer layout known) (defaults : DefaultsConform answer layout known)
    (declared : List (Value × InputValue))
    (entries : ∀ entry ∈ declared, InputValue.Declares known entry.2)
    (preset : ∀ entry ∈ declared, DefaultConforms answer layout entry.2)
    (fit : ∀ entry ∈ declared, ∀ type literal, entry.2.type = .ok type →
      GivenAs given entry.1 literal → VariablesFit answer layout vars literal type) :
    (bindArguments layout vars place given declared).Ensures answer fun result =>
      (∃ error, result = .error (.response error))
        ∨ ∃ bound, result = .ok bound
          ∧ ArgumentsConform answer layout vars given declared bound := by
  induction declared with
  | nil => exact Action.ensures_done _ (.inr ⟨[], rfl, .nil⟩)
  | cons entry rest ih =>
      obtain ⟨name, input⟩ := entry
      obtain ⟨type, inner, typed, leads, member⟩ := entries _ List.mem_cons_self
      have later := ih (fun other inside => entries other (List.mem_cons_of_mem _ inside))
        (fun other inside => preset other (List.mem_cons_of_mem _ inside))
        fun other inside => fit other (List.mem_cons_of_mem _ inside)
      have first : (bindArgument layout vars place given name input).Ensures answer
          (Fits answer layout (isSupplied vars given name) input type) :=
        fits_bindArgument types parse defaults typed leads member (preset _ List.mem_cons_self)
          fun literal => fit _ List.mem_cons_self type literal typed
      rw [bindArguments]
      refine Action.ensures_bind first (fun found fits => ?_) ?_
      · rcases fits with
          ⟨error, ⟨⟩⟩ | ⟨value, ⟨⟩, supplied, default, conforms⟩ | ⟨⟨⟩, left, optional⟩
        · refine Action.ensures_bind later (fun others holds => Action.ensures_done _ (.inr ?_)) ?_
          · rcases holds with ⟨error, ⟨⟩⟩ | ⟨bound, ⟨⟩, all⟩
            exact ⟨_, rfl, .bound supplied typed default conforms all⟩
          · rintro failure (⟨error, ⟨⟩⟩ | ⟨bound, ⟨⟩, _⟩)
            exact .inl ⟨error, rfl⟩
        · refine later.mono fun result holds => holds.imp_right fun ⟨bound, same, all⟩ => ?_
          exact ⟨bound, same, .omitted left typed optional all⟩
      · rintro failure (⟨error, ⟨⟩⟩ | ⟨value, ⟨⟩, _⟩ | ⟨⟨⟩, _⟩)
        exact .inl ⟨error, rfl⟩

theorem ArgumentsConform.names {declared : List (Value × InputValue)} {bound : List (Value × Value)}
    (conform : ArgumentsConform answer layout vars given declared bound) :
    bound.map (·.1) = (declared.filter fun entry =>
      isSupplied vars given entry.1 || entry.2.hasDefault).map (·.1) := by
  induction conform with
  | nil => rfl
  | bound holds _ _ _ _ ih => simp only [List.filter_cons, holds, if_true, List.map_cons, ih]
  | omitted left _ _ _ ih => simp only [List.filter_cons, left, Bool.false_eq_true, if_false, ih]

theorem ArgumentsConform.required {declared : List (Value × InputValue)}
    {bound : List (Value × Value)}
    (conform : ArgumentsConform answer layout vars given declared bound) :
    ∀ entry ∈ declared, ∀ type, entry.2.type = .ok type → type.isNonNull = true →
      entry.1 ∈ bound.map (·.1) := by
  induction conform with
  | nil =>
      intro entry inside
      cases inside
  | bound _ _ _ _ _ ih =>
      intro entry inside type typed required
      rcases List.mem_cons.1 inside with rfl | later
      · exact List.mem_cons_self
      · exact List.mem_cons_of_mem _ (ih entry later type typed required)
  | omitted _ typed optional _ ih =>
      intro entry inside type typed' required
      rcases List.mem_cons.1 inside with rfl | later
      · cases typed.symm.trans typed'
        rw [optional] at required
        cases required
      · exact ih entry later type typed' required

theorem ArgumentsConform.values {declared : List (Value × InputValue)}
    {bound : List (Value × Value)}
    (conform : ArgumentsConform answer layout vars given declared bound) :
    ∀ entry ∈ bound, ∃ input type, (entry.1, input) ∈ declared ∧ input.type = .ok type
      ∧ (isSupplied vars given entry.1 = false → entry.2 = input.default)
      ∧ Conforms answer layout type entry.2 := by
  induction conform with
  | nil =>
      intro entry inside
      cases inside
  | bound _ typed default conforms _ ih =>
      intro entry inside
      rcases List.mem_cons.1 inside with rfl | later
      · exact ⟨_, _, List.mem_cons_self, typed, default, conforms⟩
      · obtain ⟨input, type, member, rest⟩ := ih entry later
        exact ⟨input, type, List.mem_cons_of_mem _ member, rest⟩
  | omitted _ _ _ _ ih =>
      intro entry inside
      obtain ⟨input, type, member, rest⟩ := ih entry inside
      exact ⟨input, type, List.mem_cons_of_mem _ member, rest⟩

end Arguments

end Input

namespace Schema

variable {σ : Type} {answer : Call → σ → Reply × σ} {schema : Schema}

/-- The defaults that an accepted schema declares are values of their types. -/
structure DefaultsFit (answer : Call → σ → Reply × σ) (schema : Schema) : Prop where
  fields : Input.DefaultsConform answer schema.toLayout schema.TakesInput
  inputs : ∀ declared, schema.Takes (.ok declared) → ∀ entry ∈ declared.entries,
    Input.DefaultConforms answer schema.toLayout entry.2

/-- Binding the arguments of a field or a directive of an accepted schema ends with an error of the
response, or with the declared arguments that are supplied or have a default, in their order. Each
of them is a value of its type, and each one of a type that is not nullable is there. -/
theorem bound_arguments_conform (checked : schema.check = .ok ())
    (strict : schema.assumeValid = false)
    (parse : Input.LeavesParse answer schema.toLayout schema.TakesInput)
    (defaults : schema.DefaultsFit answer) {inputs : Inputs} (takes : schema.Takes inputs)
    (vars : Variables) (place : Nat) (given : List ArgumentNode)
    (fit : ∀ declared, inputs = .ok declared → ∀ entry ∈ declared.entries, ∀ type literal,
      entry.2.type = .ok type → Input.GivenAs given entry.1 literal →
        Input.VariablesFit answer schema.toLayout vars literal type) :
    ∃ declared, inputs = .ok declared
      ∧ (Input.arguments schema.toLayout vars place given inputs).Ensures answer fun result =>
        (∃ error, result = .error (.response error))
          ∨ ∃ bound, result = .ok bound
            ∧ bound.map (·.1) = (declared.entries.filter fun entry =>
              Input.isSupplied vars given entry.1 || entry.2.hasDefault).map (·.1)
            ∧ (∀ entry ∈ declared.entries, ∀ type, entry.2.type = .ok type →
              type.isNonNull = true → entry.1 ∈ bound.map (·.1))
            ∧ ∀ entry ∈ bound, ∃ input type, (entry.1, input) ∈ declared.entries
              ∧ input.type = .ok type
              ∧ (Input.isSupplied vars given entry.1 = false → entry.2 = input.default)
              ∧ Input.Conforms answer schema.toLayout type entry.2 := by
  obtain ⟨declared, rfl, declares⟩ := declares_of_takes checked strict takes
  refine ⟨declared, rfl, ?_⟩
  have entries : ∀ entry ∈ declared.entries, InputValue.Declares schema.TakesInput entry.2 :=
    fun entry inside => declares entry.2 (List.mem_map_of_mem inside)
  refine Action.Ensures.mono (Input.fits_bindArguments (inputTypes_of_check checked strict) parse
    defaults.fields declared.entries entries (defaults.inputs declared takes) (fit declared rfl))
    fun result holds => holds.imp_right ?_
  rintro ⟨bound, same, conform⟩
  exact ⟨bound, same, conform.names, conform.required, conform.values⟩

end Schema

namespace Leaf

/-- A reading of a literal comes to a value that is not null, or rejects it. -/
def Reads (result : Except Failure Value) : Prop :=
  (∃ value, result = .ok value ∧ value ≠ .null)
    ∨ ∃ failure, result = .error failure ∧ failure.kind.rejectsInput = true

theorem reads_cannotRead (problem : LeafProblem) : Reads (cannotRead problem) :=
  .inr ⟨_, rfl, rfl⟩

theorem reads_int (literal : Literal) : Reads (Int.parseLiteral literal) := by
  cases literal with
  | int start numeral =>
      rw [Int.parseLiteral]
      cases read : Literal.readInt numeral with
      | error fault =>
          unfold Literal.readInt at read
          simp only at read
          split at read
          · cases read
            exact .inr ⟨_, rfl, rfl⟩
          · cases read
      | ok size =>
          simp only [liftFault, Except.mapError, bind, Except.bind]
          split
          · exact .inl ⟨_, rfl, by rintro ⟨⟩⟩
          · exact reads_cannotRead _
  | _ => exact reads_cannotRead _

theorem reads_string (literal : Literal) : Reads (String.parseLiteral literal) := by
  cases literal with
  | string start text block => exact .inl ⟨_, rfl, by rintro ⟨⟩⟩
  | _ => exact reads_cannotRead _

theorem reads_boolean (literal : Literal) : Reads (Boolean.parseLiteral literal) := by
  cases literal with
  | boolean start value => exact .inl ⟨_, rfl, by rintro ⟨⟩⟩
  | _ => exact reads_cannotRead _

end Leaf

namespace Schema

/-- An application that answers every call with one. -/
def answerOne (_ : Call) (state : Unit) : Reply × Unit := (.ok (.int 1), state)

theorem takesInput_taking {id : TypeId} (takes : taking.TakesInput id) :
    id = .standard .int ∨ id = .standard .string ∨ id = .standard .boolean ∨ id = .declared 1
      ∨ id = .declared 2 := by
  obtain ⟨isInput, ⟨found, name, reached, member⟩ | rfl | rfl⟩ := takes
  · cases reached_taking.symm.trans reached
    have same : taking.leafInEffect id = id := by
      cases id <;> rfl
    rw [same] at member
    simp only [List.mem_cons, Prod.mk.injEq, List.not_mem_nil, or_false] at member
    rcases member with ⟨_, rfl⟩ | ⟨_, rfl⟩ | ⟨_, rfl⟩ | ⟨_, rfl⟩ | ⟨_, rfl⟩ | ⟨_, rfl⟩
    · cases isInput
    · exact .inl rfl
    · exact .inr (.inr (.inr (.inl rfl)))
    · exact .inr (.inr (.inr (.inr rfl)))
    · exact .inr (.inr (.inl rfl))
    · exact .inr (.inl rfl)
  · exact .inr (.inr (.inl rfl))
  · exact .inr (.inl rfl)

theorem leavesParse_taking :
    Input.LeavesParse answerOne taking.toLayout taking.TakesInput := by
  intro id literal vars takes leaf _ _
  rcases takesInput_taking takes with rfl | rfl | rfl | rfl | rfl
  · exact Action.ensures_done _ (Leaf.reads_int literal)
  · exact Action.ensures_done _ (Leaf.reads_string literal)
  · exact Action.ensures_done _ (Leaf.reads_boolean literal)
  · cases leaf
  · exact fun state => .inl ⟨.int 1, rfl, by rintro ⟨⟩⟩

theorem conforms_int (value : Value)
    (taken : taking.parseValue (.standard .int) value = .done (.ok value)) :
    Input.Conforms answerOne taking.toLayout (.named (.standard .int)) value := by
  refine .leaf rfl (.inr ⟨value, (), ?_⟩)
  rw [show taking.leafInEffect (.standard .int) = .standard .int from rfl, taken]
  rfl

theorem conforms_reason :
    Input.DefaultConforms answerOne taking.toLayout
      ⟨.str "reason", .ok (.named (.standard .string)), .str "No longer supported"⟩ := by
  intro _ type typed
  cases typed
  exact .leaf rfl (.inr ⟨.str "No longer supported", (), rfl⟩)

theorem conforms_specified {directive : Directive} (inside : directive ∈ Directive.specified)
    {declared : Table InputValue} (same : .ok declared = directive.arguments) :
    ∀ entry ∈ declared.entries, Input.DefaultConforms answerOne taking.toLayout entry.2 := by
  intro entry member
  rcases List.mem_cons.1 inside with rfl | inside
  · cases same
    rw [List.mem_singleton.1 member]
    intro preset
    cases preset
  · rcases List.mem_cons.1 inside with rfl | inside
    · cases same
      rw [List.mem_singleton.1 member]
      intro preset
      cases preset
    · rw [List.mem_singleton.1 inside] at same
      cases same
      rw [List.mem_singleton.1 member]
      exact conforms_reason

theorem entries_arguments :
    (Table.ofList [(.str "points", InputValue.points), (.str "token", InputValue.token)]).entries
      = [(.str "points", .points), (.str "token", .token)] := by
  cbv

theorem defaultsFit_taking : taking.DefaultsFit answerOne := by
  constructor
  · intro id declared takes body
    rcases takesInput_taking takes with rfl | rfl | rfl | rfl | rfl <;> cases body
    rw [InputValue.entries_coordinates]
    intro entry inside preset type typed
    rcases List.mem_cons.1 inside with rfl | inside
    · cases preset
    · rw [List.mem_singleton.1 inside] at typed ⊢
      cases typed
      exact conforms_int _ rfl
  · intro declared takes
    generalize same : (Except.ok declared : Inputs) = inputs at takes
    cases takes with
    | field knows some_ member =>
        obtain ⟨found, name, reached, knows⟩ := knows
        cases reached_taking.symm.trans reached
        simp only [List.mem_cons, Prod.mk.injEq, List.not_mem_nil, or_false] at knows
        rcases knows with ⟨_, rfl⟩ | ⟨_, rfl⟩ | ⟨_, rfl⟩ | ⟨_, rfl⟩ | ⟨_, rfl⟩ | ⟨_, rfl⟩ <;>
          cases some_
        rw [List.mem_singleton.1 member] at same
        cases same
        rw [entries_arguments]
        intro entry inside preset
        rcases List.mem_cons.1 inside with rfl | inside
        · cases preset
        · rw [List.mem_singleton.1 inside] at preset
          cases preset
    | directive member => exact conforms_specified member same
    | specified member => exact conforms_specified member same

/-- Points of which one coordinate is a variable, and a token. -/
def takenNodes : List ArgumentNode :=
  [⟨0, "points", .object 0 [("x", .reference 0 "v")]⟩, ⟨0, "token", .int 0 "5"⟩]

def takenField : Inputs := .ok (.ofList [(.str "points", .points), (.str "token", .token)])

theorem takes_taken : taking.Takes takenField := by
  have knows : taking.Knows (.declared 0) := ⟨_, .str "Query", reached_taking, List.mem_cons_self⟩
  let field : Field := ⟨.str "f", .ok (.named (.standard .int)), takenField, .absent, .absent, none⟩
  have inside : field ∈ (Table.ofList [(.str "f", field)]).items := List.mem_cons_self
  exact .field knows rfl inside

theorem fits_taken (declared : Table InputValue) (same : takenField = .ok declared) :
    ∀ entry ∈ declared.entries, ∀ type literal, entry.2.type = .ok type →
      Input.GivenAs takenNodes entry.1 literal →
        Input.VariablesFit answerOne taking.toLayout [("v", .int 3)] literal type := by
  cases same
  rw [entries_arguments]
  intro entry inside type literal typed given name at_ value position held
  have three : value = .int 3 := by
    simp only [List.lookup] at held
    split at held <;> cases held
    rfl
  subst three
  obtain ⟨node, found, rfl⟩ := given
  rcases List.mem_cons.1 inside with rfl | inside
  · have written : (takenNodes.reverse.find? fun found =>
        (Value.str "points").equals (.str found.name))
          = some ⟨0, "points", .object 0 [("x", .reference 0 "v")]⟩ := by
      cbv
    cases written.symm.trans found
    cases typed
    cases position with
    | single _ _ position =>
      cases position with
      | nonNull _ position =>
        cases position with
        | field body member typed looked position =>
          simp only [List.reverse_singleton, List.lookup] at looked
          split at looked
          · next same =>
              cases looked
              rw [beq_iff_eq.1 same] at member
              cases body
              rw [InputValue.entries_coordinates] at member
              rcases List.mem_cons.1 member with here | member
              · cases here
                cases typed
                cases position with
                | here => exact .inr (.inr (conforms_int _ rfl))
                | nonNull plain => cases plain
              · simp at member
          · cases looked
  · rw [List.mem_singleton.1 inside] at typed found
    have written : (takenNodes.reverse.find? fun found =>
        (Value.str "token").equals (.str found.name)) = some ⟨0, "token", .int 0 "5"⟩ := by
      cbv
    cases written.symm.trans found
    cases typed
    cases position with
    | nonNull _ position => cases position

/-- A point and a token are bound to values of their types. -/
theorem taken_arguments_conform :
    ∃ bound, ((Input.arguments taking.toLayout [("v", .int 3)] 0 takenNodes takenField).run
        answerOne ()).1 = .ok bound
      ∧ ∀ entry ∈ bound, ∃ input type,
        (entry.1, input) ∈ (Table.ofList
          [(.str "points", InputValue.points), (.str "token", InputValue.token)]).entries
        ∧ input.type = .ok type
        ∧ Input.Conforms answerOne taking.toLayout type entry.2 := by
  have answered : ((Input.arguments taking.toLayout [("v", .int 3)] 0 takenNodes takenField).run
      answerOne ()).1.toOption.isSome = true := by
    cbv
  obtain ⟨declared, same, binds⟩ := bound_arguments_conform check_taking rfl leavesParse_taking
    defaultsFit_taking takes_taken [("v", .int 3)] 0 takenNodes fits_taken
  cases same
  rcases binds () with ⟨error, failed⟩ | ⟨bound, some_, _, _, values⟩
  · rw [failed] at answered
    cases answered
  · refine ⟨bound, some_, fun entry inside => ?_⟩
    obtain ⟨input, type, member, typed, _, conforms⟩ := values entry inside
    exact ⟨input, type, member, typed, conforms⟩

end Schema

end GraphQL
