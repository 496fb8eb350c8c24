import GraphQL.Document.Token
import GraphQL.Proofs.Blameless

/-!
Names that a document can write. The check of a schema lets a name pass if it is a word of the grammar
that is not reserved, or such a word with a line break after it; a document reads a word back as one
token, whatever stands behind it.
-/

namespace GraphQL

/-- The grammar of names: a letter or an underscore, then letters, digits and underscores. -/
def IsWord (text : String) : Prop :=
  ∃ first rest, text.toList = first :: rest ∧ (first = '_' ∨ first.isAlpha = true)
    ∧ ∀ c ∈ rest, c = '_' ∨ c.isAlphanum = true

/-- The names that are kept for introspection. -/
def IsReservedText (text : String) : Prop := ['_', '_'] <+: text.toList

/-- A name that a document can write. -/
def IsWritable (name : Value) : Prop :=
  ∃ text, name = .str text ∧ IsWord text ∧ ¬ IsReservedText text

/-- A name that nothing but a line break behind it keeps from being written. -/
def IsBrokenOff (name : Value) : Prop :=
  ∃ text, name = .str (text ++ "\n") ∧ IsWritable (.str text)

theorem isNameStart_iff (c : Char) : isNameStart c = true ↔ c = '_' ∨ c.isAlpha = true := by
  simp only [isNameStart, Char.isAlpha, Char.isUpper, Char.isLower, Bool.or_eq_true,
    Bool.and_eq_true, decide_eq_true_eq, Char.le_def, ge_iff_le]
  tauto

theorem isNameContinue_iff (c : Char) :
    isNameContinue c = true ↔ c = '_' ∨ c.isAlphanum = true := by
  have start := isNameStart_iff c
  simp only [isNameContinue, Char.isAlphanum, Char.isDigit, Bool.or_eq_true, Bool.and_eq_true,
    decide_eq_true_eq, Char.le_def, ge_iff_le] at start ⊢
  tauto

theorem isNameText_iff (text : String) : isNameText text.toList = true ↔ IsWord text := by
  unfold isNameText IsWord
  cases text.toList with
  | nil => simp
  | cons first rest =>
      simp only [Bool.and_eq_true, List.all_eq_true, isNameStart_iff, isNameContinue_iff]
      constructor
      · intro ⟨start, others⟩
        exact ⟨first, rest, rfl, start, others⟩
      · rintro ⟨_, _, ⟨⟩, start, others⟩
        exact ⟨start, others⟩

theorem isReserved_iff (text : String) :
    isReserved text.toList = true ↔ IsReservedText text := by
  unfold isReserved IsReservedText
  constructor
  · intro reserved
    split at reserved
    · next rest same => rw [same]; exact ⟨rest, rfl⟩
    · cases reserved
  · rintro ⟨rest, same⟩
    rw [← same]
    rfl

/-- A text that is not itself a word passes without its line break only if it has one. -/
theorem isNameText_dropFinalBreak (cs : List Char) :
    isNameText (dropFinalBreak cs) = true ↔
      isNameText cs = true ∨ ∃ front, cs = front ++ ['\n'] ∧ isNameText front = true := by
  unfold dropFinalBreak
  have back := List.reverse_reverse cs
  split
  · next rest same =>
      rw [same, List.reverse_cons] at back
      constructor
      · exact fun word => .inr ⟨rest.reverse, back.symm, word⟩
      · rintro (word | ⟨front, split_, word⟩)
        · -- a line break is no character of a name
          rw [← back] at word
          cases front : rest.reverse with
          | nil => rw [front] at word; simp [isNameText, isNameStart] at word
          | cons c more => rw [front] at word; simp [isNameText, isNameContinue, isNameStart] at word
        · rw [← back] at split_
          rwa [List.append_cancel_right split_]
  · next other =>
      refine ⟨.inl, fun either => either.resolve_right ?_⟩
      rintro ⟨front, rfl, _⟩
      exact other front.reverse (by simp)

theorem isReservedText_append_break (text : String) :
    IsReservedText (text ++ "\n") ↔ IsReservedText text := by
  unfold IsReservedText
  rw [String.toList_append]
  match text.toList with
  | [] => decide
  | [c] => simp
  | c :: d :: rest => simp

/-- What passes for a name, and what does not. -/
theorem nameProblem_eq_none_iff (name : Value) :
    nameProblem name = none ↔ IsWritable name ∨ IsBrokenOff name := by
  cases name with
  | str text =>
      unfold nameProblem
      simp only
      by_cases reserved : isReserved text.toList = true
      · rw [if_pos reserved]
        refine ⟨nofun, ?_⟩
        rw [isReserved_iff] at reserved
        rintro (⟨_, ⟨⟩, _, free⟩ | ⟨word, same, _, ⟨⟩, _, free⟩)
        · exact absurd reserved free
        · cases same
          exact absurd ((isReservedText_append_break word).1 reserved) free
      · rw [if_neg reserved]
        rw [isReserved_iff] at reserved
        by_cases passes : (isNameText text.toList || isNameText (dropFinalBreak text.toList)) = true
        · rw [if_pos passes]
          refine ⟨fun _ => ?_, fun _ => rfl⟩
          rw [Bool.or_eq_true, isNameText_dropFinalBreak] at passes
          rcases passes with word | word | ⟨front, split_, word⟩
          · exact .inl ⟨text, rfl, (isNameText_iff text).1 word, reserved⟩
          · exact .inl ⟨text, rfl, (isNameText_iff text).1 word, reserved⟩
          · have whole : text = String.ofList front ++ "\n" := by
              rw [← text.ofList_toList, split_]
              simp
            rw [whole, isReservedText_append_break] at reserved
            refine .inr ⟨String.ofList front, by rw [whole], String.ofList front, rfl, ?_, reserved⟩
            rw [← isNameText_iff, String.toList_ofList]
            exact word
        · rw [if_neg passes]
          refine ⟨nofun, fun either => absurd ?_ passes⟩
          rw [Bool.or_eq_true, isNameText_dropFinalBreak]
          rcases either with ⟨_, ⟨⟩, word, _⟩ | ⟨front, same, _, ⟨⟩, word, _⟩
          · exact .inl ((isNameText_iff text).2 word)
          · cases same
            exact .inr (.inr ⟨front.toList, by rw [String.toList_append]; rfl,
              (isNameText_iff front).2 word⟩)
  | _ =>
      refine ⟨nofun, ?_⟩
      rintro (⟨_, ⟨⟩, _⟩ | ⟨_, ⟨⟩, _⟩)

namespace Token

theorem here_of_isNameStart {first : Char} (start : isNameStart first = true) (rest : List Char)
    (offset : Nat) : next ⟨first :: rest, offset⟩ = .ok (name ⟨first :: rest, offset⟩) := by
  have apart : ∀ other, isNameStart other = false → ¬ first = other := by
    rintro other no rfl
    rw [no] at start
    cases start
  have seen : isIgnored first = false := by
    simp [isIgnored, apart ' ' (by decide), apart '\t' (by decide), apart ',' (by decide),
      apart '\ufeff' (by decide), apart '\n' (by decide), apart '\r' (by decide)]
  have unmarked : TokenKind.ofChar? first = none := by
    unfold TokenKind.ofChar?
    split <;> first | rfl | exact absurd start (by decide)
  have letter : (Text.isAsciiDigit first || first = '-') = false := by
    have few : ¬ ('0' ≤ first ∧ first ≤ '9') := by
      intro ⟨lower, upper⟩
      have range := List.all_eq_true.1
        (show (List.range 58).all (fun code => code < 48 || !isNameStart (Char.ofNat code)) = true
          by decide)
        first.toNat (List.mem_range.2 (Nat.lt_succ_of_le upper))
      rw [Char.ofNat_toNat, start, Bool.not_true, Bool.or_false, decide_eq_true_eq] at range
      have least : 48 ≤ first.toNat := lower
      omega
    simp [Text.isAsciiDigit, Text.asciiDigit?, few, apart '-' (by decide)]
  have skipped : skipIgnored false (first :: rest) offset = ⟨first :: rest, offset⟩ := by
    simp [skipIgnored, apart '#' (by decide), seen]
  rw [next, skipped, here]
  simp only [unmarked, letter, Bool.false_eq_true, if_false, start, if_true]

/-- A word is read back as one token, up to the first character that cannot belong to it. -/
theorem next_of_isWord {text : String} (word : IsWord text) (rest : List Char) (offset : Nat)
    (ends : ∀ c ∈ rest.head?, ¬ (c = '_' ∨ c.isAlphanum = true)) :
    next ⟨text.toList ++ rest, offset⟩
      = .ok (⟨.name, offset, some text⟩, ⟨rest, offset + text.toList.length⟩) := by
  have whole : (text.toList ++ rest).takeWhile isNameContinue = text.toList := by
    have each : ∀ c ∈ text.toList, isNameContinue c = true := by
      obtain ⟨first, others, spelled, start, follow⟩ := word
      intro c member
      rw [spelled] at member
      rcases List.mem_cons.1 member with rfl | later
      · rw [isNameContinue, (isNameStart_iff c).2 start, Bool.true_or]
      · exact (isNameContinue_iff c).2 (follow c later)
    rw [List.takeWhile_append_of_pos each]
    cases rest with
    | nil => rw [List.takeWhile_nil, List.append_nil]
    | cons c more =>
        have stops : ¬ isNameContinue c = true := mt (isNameContinue_iff c).1 (ends c rfl)
        rw [List.takeWhile_cons_of_neg stops, List.append_nil]
  obtain ⟨first, others, spelled, start, follow⟩ := word
  have made : name ⟨text.toList ++ rest, offset⟩
      = (⟨.name, offset, some text⟩, ⟨rest, offset + text.toList.length⟩) := by
    simp only [name, Cursor.takeWhile, whole, String.ofList_toList, Cursor.drop,
      List.drop_left]
  rw [← made]
  rw [spelled, List.cons_append]
  exact here_of_isNameStart ((isNameStart_iff first).2 start) _ _

end Token

namespace Value

theorem eq_str_of_equals {text : String} {value : Value}
    (same : (Value.str text).equals value = true) : value = .str text :=
  eq_str_of_isKey (by rw [isKey, same, Bool.or_true])

theorem key_eq_str_of_isKey {text : String} {key : Value}
    (found : key.isKey (.str text) = true) : key = .str text := by
  cases key with
  | str other => rw [of_decide_eq_true ((isKey_str other text).symm.trans found)]
  | error thrown =>
      obtain ⟨kind, message, extensions, path, identity⟩ := thrown
      cases kind <;> simp [isKey, identical, equals, equals?, atomsEqual, numeric?] at found
  | object object =>
      obtain ⟨className, attributes, stringForm, comparesAttributes, hashable, identity⟩ := object
      simp [isKey, identical, equals, equals?] at found
  | _ => simp [isKey, identical, equals, equals?, atomsEqual, numeric?, listed?] at found

end Value

/-- What stands in a table goes by the text that it stands under. -/
def Table.Keyed {α : Type} (nameOf : α → Value) (table : Table α) : Prop :=
  ∀ entry ∈ table.entries, ∀ text, nameOf entry.2 = .str text → entry.1 = .str text

theorem Table.keyed_ofList {α : Type} (nameOf : α → Value) (entries : List (Value × α))
    (each : ∀ entry ∈ entries, ∀ text, nameOf entry.2 = .str text → entry.1 = .str text) :
    (Table.ofList entries).Keyed nameOf := by
  refine Table.forall_ofList
    (fun name item => ∀ text, nameOf item = .str text → name = .str text) entries each ?_
  intro entry member name same text named
  rw [each entry member text named] at same
  exact Value.key_eq_str_of_isKey same

namespace Declaration

variable {catalog : Catalog}

theorem eq_str_of_agreedName {own : Option Value} {name : Value} {text : String}
    (agreed : agreedName own name = some (.str text)) : name = .str text := by
  cases own with
  | none => exact Option.some.inj agreed
  | some own =>
      simp only [agreedName] at agreed
      split at agreed
      · next same =>
          cases agreed
          exact Value.eq_str_of_equals same
      · cases agreed

theorem input_keyed {owner role text : String} {name : Value} {declared : InputDeclaration}
    {made : InputValue} (built : input catalog owner role name declared = .ok made)
    (named : made.name = .str text) : name = .str text := by
  unfold input at built
  split at built
  · next agreed same =>
      cases built
      exact eq_str_of_agreedName (same.trans (congrArg some named))
  · cases built

theorem inputOfEntry_keyed {owner role text : String} {name : Value}
    {entry : Entry InputDeclaration} {made : InputValue}
    (built : inputOfEntry catalog owner role name entry = .ok made)
    (named : made.name = .str text) : name = .str text := by
  cases entry with
  | declared declared => exact input_keyed built named
  | bare type =>
      obtain ⟨candidate, _, built⟩ := Checked.ok_of_bind built
      cases candidate with
      | type ref => exact input_keyed built named
      | other value =>
          simp only at built
          split at built
          · exact input_keyed built named
          · cases built

theorem keyed_inputs {owner role : String} {declared : Entries InputDeclaration}
    {made : Table InputValue} (built : inputs catalog owner role declared = .ok made) :
    made.Keyed InputValue.name := by
  unfold inputs at built
  split at built
  · cases built
  · next entries _ =>
      obtain ⟨listed, each, built⟩ := Checked.ok_of_bind built
      cases built
      refine Table.keyed_ofList _ _ fun entry member text named => ?_
      obtain ⟨source, _, each⟩ := Except.mem_of_mapM_result _ _ _ each entry member
      obtain ⟨made, entered, each⟩ := Checked.ok_of_bind each
      cases each
      exact inputOfEntry_keyed entered named

theorem keyed_arguments {owner : String} {declared : Entries InputDeclaration}
    {made : Table InputValue} (built : arguments catalog owner declared = .ok made) :
    made.Keyed InputValue.name := by
  unfold arguments at built
  split at built
  · exact keyed_inputs built
  · exact keyed_inputs built

theorem field_keyed {parent : String} {name : Value} {declared : FieldDeclaration} {made : Field}
    (built : field catalog parent name declared = .ok made) :
    (∀ text, made.name = .str text → name = .str text)
      ∧ ∀ arguments, made.arguments = .ok arguments → arguments.Keyed InputValue.name := by
  unfold field at built
  split at built
  · next agreed same =>
      cases built
      exact ⟨fun text named => eq_str_of_agreedName (same.trans (congrArg some named)),
        fun arguments given => keyed_arguments given⟩
  · cases built

theorem fieldOfEntry_keyed {parent : String} {name : Value} {entry : Entry FieldDeclaration}
    {made : Field} (built : fieldOfEntry catalog parent name entry = .ok made) :
    (∀ text, made.name = .str text → name = .str text)
      ∧ ∀ arguments, made.arguments = .ok arguments → arguments.Keyed InputValue.name := by
  cases entry with
  | declared declared => exact field_keyed built
  | bare type =>
      obtain ⟨candidate, _, built⟩ := Checked.ok_of_bind built
      cases candidate with
      | type ref => exact field_keyed built
      | other value => cases built

/-- Fields and their arguments go by the names that they stand under. -/
def KeyedFields (made : Table Field) : Prop :=
  made.Keyed Field.name ∧ ∀ field ∈ made.items, ∀ arguments, field.arguments = .ok arguments →
    arguments.Keyed InputValue.name

theorem keyedFields_fields {parent : String} {declared : Entries FieldDeclaration}
    {made : Table Field} (built : fields catalog parent declared = .ok made) :
    KeyedFields made := by
  obtain ⟨_, _, built⟩ := Checked.ok_of_bind built
  split at built
  · cases built
  · next entries _ =>
      obtain ⟨listed, each, built⟩ := Checked.ok_of_bind built
      cases built
      have sound : ∀ entry ∈ listed, (∀ text, entry.2.name = .str text → entry.1 = .str text)
          ∧ ∀ arguments, entry.2.arguments = .ok arguments →
            arguments.Keyed InputValue.name := by
        intro entry member
        obtain ⟨source, _, each⟩ := Except.mem_of_mapM_result _ _ _ each entry member
        obtain ⟨made, entered, each⟩ := Checked.ok_of_bind each
        cases each
        exact fieldOfEntry_keyed entered
      refine ⟨Table.keyed_ofList _ _ fun entry member => (sound entry member).1, ?_⟩
      intro field member
      obtain ⟨entry, inside, rfl⟩ := List.mem_map.1 member
      exact Table.forall_ofList (fun _ (field : Field) => ∀ arguments,
          field.arguments = .ok arguments → arguments.Keyed InputValue.name) listed
        (fun entry member => (sound entry member).2)
        (fun entry member _ _ => (sound entry member).2) entry inside

end Declaration

namespace Schema

variable {declared : SchemaDeclaration} {schema : Schema}

theorem Built.definition (built : schema.Built declared) (id : TypeId) :
    (∃ rule, (schema.definition id).body = .scalar rule)
      ∨ ∃ type, schema.definition id
        = Declaration.typeDef (.ofDeclarations declared.types) type := by
  cases id with
  | standard scalar => exact .inl ⟨_, rfl⟩
  | declared index =>
      simp only [Layout.definition, built.types, List.getElem?_toArray, List.getElem?_map]
      cases declared.types[index]? with
      | none => exact .inl ⟨_, rfl⟩
      | some type => exact .inr ⟨type, rfl⟩

theorem Built.keyedFields (built : schema.Built declared) {id : TypeId} {fields : Table Field}
    (some_ : (schema.definition id).fields? = some (.ok fields)) :
    Declaration.KeyedFields fields := by
  unfold TypeDef.fields? at some_
  rcases built.definition id with ⟨rule, body⟩ | ⟨type, made⟩
  · rw [body] at some_
    cases some_
  · rw [made, Declaration.typeDef] at some_
    cases shape : type.body with
    | object listed interfaces isTypeOf =>
        rw [shape] at some_
        exact Declaration.keyedFields_fields (Option.some.inj some_)
    | interface listed interfaces resolveType =>
        rw [shape] at some_
        exact Declaration.keyedFields_fields (Option.some.inj some_)
    | _ =>
        rw [shape] at some_
        cases some_

theorem Built.keyedInputs (built : schema.Built declared) {id : TypeId} {fields : Table InputValue}
    (body : (schema.definition id).body = .input (.ok fields)) :
    fields.Keyed InputValue.name := by
  rcases built.definition id with ⟨rule, scalar⟩ | ⟨type, made⟩
  · rw [scalar] at body
    cases body
  · rw [made, Declaration.typeDef] at body
    cases shape : type.body with
    | input listed =>
        rw [shape] at body
        simp only [Declaration.body, TypeBody.input.injEq] at body
        obtain ⟨_, _, given⟩ := Checked.ok_of_bind body
        exact Declaration.keyed_inputs given
    | _ =>
        rw [shape] at body
        cases body

theorem keyed_specified {directive : Directive} (inside : directive ∈ Directive.specified)
    {arguments : Table InputValue} (given : directive.arguments = .ok arguments) :
    arguments.Keyed InputValue.name := by
  have single : ∀ name type default,
      (Table.ofList [(name, (⟨name, type, default⟩ : InputValue))]).Keyed InputValue.name := by
    intro name type default
    refine Table.keyed_ofList _ _ fun entry member text named => ?_
    rw [List.mem_singleton.1 member] at named ⊢
    exact named
  rcases List.mem_cons.1 inside with rfl | inside
  · cases given
    exact single _ _ _
  · rcases List.mem_cons.1 inside with rfl | inside
    · cases given
      exact single _ _ _
    · cases List.mem_singleton.1 inside
      cases given
      exact single _ _ _

theorem keyed_directives (made : declared.schema = .ok schema) {directive : Directive}
    (inside : directive ∈ schema.directives) {arguments : Table InputValue}
    (given : directive.arguments = .ok arguments) : arguments.Keyed InputValue.name := by
  obtain ⟨query, _, made⟩ := Checked.ok_of_bind made
  obtain ⟨mutation, _, made⟩ := Checked.ok_of_bind made
  obtain ⟨subscription, _, made⟩ := Checked.ok_of_bind made
  obtain ⟨extra, _, made⟩ := Checked.ok_of_bind made
  obtain ⟨lists, each, made⟩ := Checked.ok_of_bind made
  obtain ⟨overriding, _, made⟩ := Checked.ok_of_bind made
  obtain ⟨overrides, _, made⟩ := Checked.ok_of_bind made
  cases made
  obtain ⟨list, listed, member⟩ := List.mem_flatten.1 inside
  obtain ⟨entry, _, made⟩ := Except.mem_of_mapM_result _ _ _ each list listed
  cases entry with
  | specified =>
      cases made
      exact keyed_specified member given
  | declared directive =>
      obtain ⟨built, same, made⟩ := Checked.ok_of_bind made
      cases made
      cases List.mem_singleton.1 member
      obtain ⟨_, _, same⟩ := Checked.ok_of_bind same
      cases same
      exact Declaration.keyed_arguments given

end Schema

/-- A name in a table: the one that something stands under, and the one that it goes by. -/
def Table.Lists {α : Type} (nameOf : α → Value) (table : Table α) (name : Value) : Prop :=
  ∃ entry ∈ table.entries, name = entry.1 ∨ name = nameOf entry.2

/-- The names of everything that a schema leads to. -/
inductive Schema.Names (schema : Schema) : Value → Prop where
  | type {id : TypeId} : schema.Knows id → Names schema (schema.definition id).name
  | field {id : TypeId} {fields : Table Field} {name : Value} : schema.Knows id →
    (schema.definition id).fields? = some (.ok fields) → fields.Lists Field.name name →
    Names schema name
  | argument {id : TypeId} {fields : Table Field} {field : Field} {arguments : Table InputValue}
      {name : Value} :
    schema.Knows id → (schema.definition id).fields? = some (.ok fields) → field ∈ fields.items →
    field.arguments = .ok arguments → arguments.Lists InputValue.name name → Names schema name
  | inputField {id : TypeId} {fields : Table InputValue} {name : Value} : schema.Knows id →
    (schema.definition id).body = .input (.ok fields) → fields.Lists InputValue.name name →
    Names schema name
  | enumValue {id : TypeId} {values : Table EnumValue} {name : Value} : schema.Knows id →
    (schema.definition id).body = .enum (.ok values) → values.Lists EnumValue.name name →
    Names schema name
  | directive {directive : Directive} : directive ∈ schema.directives →
    Names schema directive.name
  | directiveArgument {directive : Directive} {arguments : Table InputValue} {name : Value} :
    directive ∈ schema.directives → directive.arguments = .ok arguments →
    arguments.Lists InputValue.name name → Names schema name

theorem passes_of_checkNameOf {owner : Option String} {name : Value}
    (passes : checkNameOf owner name = .ok ()) : nameProblem name = none := by
  unfold checkNameOf at passes
  split at passes
  · assumption
  · cases passes

theorem isText_of_nameProblem {name : Value} (passes : nameProblem name = none) :
    ∃ text, name = .str text := by
  rcases (nameProblem_eq_none_iff name).1 passes with ⟨text, same, _⟩ | ⟨text, same, _⟩
  · exact ⟨text, same⟩
  · exact ⟨_, same⟩

theorem Table.passes_of_lists {α : Type} {nameOf : α → Value} {table : Table α}
    (keyed : table.Keyed nameOf) (each : ∀ item ∈ table.items, nameProblem (nameOf item) = none)
    {name : Value} (lists : table.Lists nameOf name) : nameProblem name = none := by
  obtain ⟨entry, member, named⟩ := lists
  have passes := each entry.2 (List.mem_map_of_mem member)
  obtain ⟨text, same⟩ := isText_of_nameProblem passes
  rcases named with rfl | rfl
  · rw [keyed entry member text same, ← same]
    exact passes
  · exact passes

namespace Schema

variable {declared : SchemaDeclaration} {schema : Schema}

theorem names_of_checkField {label : String} {field : Field}
    (passes : schema.checkField label field = .ok ()) :
    nameProblem field.name = none ∧ ∀ arguments, field.arguments = .ok arguments →
      ∀ input ∈ arguments.items, nameProblem input.name = none := by
  obtain ⟨_, named, passes⟩ := Checked.ok_of_bind passes
  obtain ⟨_, _, passes⟩ := Checked.ok_of_bind passes
  obtain ⟨_, _, passes⟩ := Checked.ok_of_bind passes
  obtain ⟨_, _, passes⟩ := Checked.ok_of_bind passes
  obtain ⟨_, _, passes⟩ := Checked.ok_of_bind passes
  obtain ⟨own, same, passes⟩ := Checked.ok_of_bind passes
  refine ⟨passes_of_checkNameOf named, fun arguments given input inside => ?_⟩
  cases given.symm.trans same
  obtain ⟨_, named, _⟩ := Checked.ok_of_bind (Except.all_of_forM _ _ passes input inside)
  exact passes_of_checkNameOf named

theorem names_of_checkDirective {directive : Directive}
    (passes : schema.checkDirective directive = .ok ()) :
    nameProblem directive.name = none ∧ ∀ arguments, directive.arguments = .ok arguments →
      ∀ input ∈ arguments.items, nameProblem input.name = none := by
  obtain ⟨_, named, passes⟩ := Checked.ok_of_bind passes
  obtain ⟨_, _, passes⟩ := Checked.ok_of_bind passes
  obtain ⟨own, same, passes⟩ := Checked.ok_of_bind passes
  refine ⟨passes_of_checkNameOf named, fun arguments given input inside => ?_⟩
  cases given.symm.trans same
  obtain ⟨_, named, _⟩ := Checked.ok_of_bind (Except.all_of_forM _ _ passes input inside)
  exact passes_of_checkNameOf named

theorem names_of_input {type : TypeDef} {fields : Table InputValue}
    (body : type.body = .input (.ok fields)) (passes : schema.checkDefinition type = .ok ()) :
    ∀ input ∈ fields.items, nameProblem input.name = none := by
  obtain ⟨_, _, passes⟩ := Checked.ok_of_bind passes
  rw [body] at passes
  obtain ⟨own, ⟨⟩, passes⟩ := Checked.ok_of_bind passes
  obtain ⟨_, _, passes⟩ := Checked.ok_of_bind passes
  intro input inside
  obtain ⟨_, named, _⟩ := Checked.ok_of_bind (Except.all_of_forM _ _ passes input inside)
  exact passes_of_checkNameOf named

theorem names_of_enum {type : TypeDef} {values : Table EnumValue}
    (body : type.body = .enum (.ok values)) (passes : schema.checkDefinition type = .ok ()) :
    ∀ name ∈ values.names, nameProblem name = none := by
  obtain ⟨_, _, passes⟩ := Checked.ok_of_bind passes
  rw [body] at passes
  obtain ⟨own, ⟨⟩, passes⟩ := Checked.ok_of_bind passes
  obtain ⟨_, _, passes⟩ := Checked.ok_of_bind passes
  intro name inside
  obtain ⟨_, named, _⟩ := Checked.ok_of_bind (Except.all_of_forM _ _ passes name inside)
  exact passes_of_checkNameOf named

/-- Every name of a schema that passes its check has passed for a name. -/
theorem passes_of_names (made : declared.schema = .ok schema) (checked : schema.check = .ok ())
    (strict : schema.assumeValid = false) {name : Value} (named : schema.Names name) :
    nameProblem name = none := by
  have built := built_of_schema made
  obtain ⟨found, checks⟩ := checks_of_check checked strict
  cases named with
  | type known =>
      obtain ⟨_, passes, _⟩ := Checked.ok_of_bind (checkDefinition_of_knows checked strict known)
      exact passes_of_checkNameOf passes
  | field known some_ lists =>
      obtain ⟨label, each⟩ := checkFieldsType_of_fields some_
        (checkDefinition_of_knows checked strict known)
      exact Table.passes_of_lists (built.keyedFields some_).1
        (fun field inside => (names_of_checkField (each field inside)).1) lists
  | argument known some_ inside given lists =>
      obtain ⟨label, each⟩ := checkFieldsType_of_fields some_
        (checkDefinition_of_knows checked strict known)
      exact Table.passes_of_lists ((built.keyedFields some_).2 _ inside _ given)
        ((names_of_checkField (each _ inside)).2 _ given) lists
  | inputField known body lists =>
      exact Table.passes_of_lists (built.keyedInputs body)
        (names_of_input body (checkDefinition_of_knows checked strict known)) lists
  | enumValue known body lists =>
      obtain ⟨entry, member, named⟩ := lists
      have passes := names_of_enum body (checkDefinition_of_knows checked strict known) entry.1
        (List.mem_map_of_mem member)
      rcases named with rfl | rfl
      · exact passes
      · rcases built.namesValues _ _ body entry member with same | same
        · rw [same]
          exact passes
        · obtain ⟨text, named⟩ := (isText_of_nameProblem passes)
          rw [named] at same passes
          rw [Value.eq_str_of_isKey same]
          exact passes
  | directive inside =>
      exact (names_of_checkDirective (mem_checkDirectives checks.directives _ inside)).1
  | directiveArgument inside given lists =>
      exact Table.passes_of_lists (keyed_directives made inside given)
        ((names_of_checkDirective (mem_checkDirectives checks.directives _ inside)).2 _ given) lists

/-- Every name of a schema that passes its check can be written in a document, where it is read back
as one token, unless it has a line break behind it; and what passes for a name is just that. -/
theorem names_can_be_written (declared : SchemaDeclaration) (schema : Schema)
    (made : declared.schema = .ok schema) (strict : schema.assumeValid = false)
    (checked : schema.check = .ok ()) :
    (∀ name, schema.Names name → ¬ IsBrokenOff name →
      ∃ text, name = .str text ∧ IsWord text ∧ ¬ IsReservedText text
        ∧ Token.next ⟨text.toList, 0⟩
          = .ok (⟨.name, 0, some text⟩, ⟨[], text.toList.length⟩))
      ∧ (∀ name, schema.Names name → IsWritable name ∨ IsBrokenOff name)
      ∧ ∀ name, nameProblem name = none ↔ IsWritable name ∨ IsBrokenOff name := by
  have passes := fun name (named : schema.Names name) =>
    (nameProblem_eq_none_iff name).1 (passes_of_names made checked strict named)
  refine ⟨fun name named whole => ?_, passes, nameProblem_eq_none_iff⟩
  obtain ⟨text, same, word, free⟩ := (passes name named).resolve_right whole
  have read := Token.next_of_isWord word [] 0 (fun c found => by cases found)
  rw [List.append_nil, Nat.zero_add] at read
  exact ⟨text, same, word, free, read⟩

end Schema

/-- A schema in which something of every kind goes by one name: a type, a field, an argument, an input
field, a value of an enum, a directive and an argument of it. -/
def SchemaDeclaration.calling (name : String) : SchemaDeclaration where
  types := [
    ⟨.str "Query", .object
      (.listed [(.str name, .declared
        { type := .named (.declared 1)
          arguments := .listed [(.str name, .bare (.named (.declared 2)))]
          resolve := .function 0
          complexity := .absent
          deprecated := none
          name := none })])
      (.listed []) .absent⟩,
    ⟨.str name, .enum (.mapping [(.str name, .bare (.int 1))])⟩,
    ⟨.str "Input", .input (.listed [(.str name, .bare (.named (.standard .int)))])⟩]
  query := some (.named (.declared 0))
  directives := [.declared
    ⟨.str name, ["FIELD"], .listed [(.str name, .bare (.named (.standard .int)))]⟩]

/-- What becomes of it. -/
def Schema.calling (name : String) : Schema := .ofLayout
  { types := ((SchemaDeclaration.calling name).types.map
      (Declaration.typeDef (.ofDeclarations (SchemaDeclaration.calling name).types))).toArray
    query := some (.named (.declared 0))
    mutation := none
    subscription := none
    extra := []
    directives := [
      { name := .str name
        locations := ["FIELD"]
        arguments := .ok (.ofList
          [(.str name, ⟨.str name, .ok (.named (.standard .int)), .undefined⟩)]) }]
    overrides := []
    assumeValid := false }

theorem SchemaDeclaration.schema_calling (name : String) :
    (calling name).schema = .ok (.calling name) := by
  cbv

set_option maxRecDepth 10000 in
theorem Schema.check_calling (name : String) (either : name = "a" ∨ name = "a\n") :
    (calling name).check = .ok () := by
  have reached : (calling name).reached = .ok [(.str "Query", .declared 0),
      (.str name, .declared 1), (.str "Input", .declared 2), (.str "Int", .standard .int)] := by
    rcases either with rfl | rfl
    · cbv
    · cbv
  unfold check
  rw [reached]
  rcases either with rfl | rfl
  · cbv
  · cbv

theorem Schema.names_calling (name : String) : (calling name).Names (.str name) := by
  have inside : ⟨.str name, ["FIELD"], _⟩ ∈ (calling name).directives := List.mem_cons_self
  exact .directive inside

/-- A letter is a name for everything. -/
theorem Schema.letter_can_be_written :
    (SchemaDeclaration.calling "a").schema = .ok (.calling "a")
      ∧ (calling "a").assumeValid = false
      ∧ (calling "a").check = .ok ()
      ∧ (calling "a").Names (.str "a")
      ∧ ¬ IsBrokenOff (.str "a")
      ∧ ∃ text, Value.str "a" = .str text ∧ IsWord text ∧ ¬ IsReservedText text
        ∧ Token.next ⟨text.toList, 0⟩
          = .ok (⟨.name, 0, some text⟩, ⟨[], text.toList.length⟩) := by
  have whole : ¬ IsBrokenOff (.str "a") := by
    rintro ⟨front, same, _⟩
    have ends := congrArg (fun text => text.toList.getLast?) (Value.str.inj same)
    simp [String.toList_append] at ends
  have written := names_can_be_written (.calling "a") (calling "a")
    (SchemaDeclaration.schema_calling "a") rfl (check_calling "a" (.inl rfl))
  exact ⟨SchemaDeclaration.schema_calling "a", rfl, check_calling "a" (.inl rfl),
    names_calling "a", whole, written.1 _ (names_calling "a") whole⟩

/-- A letter with a line break behind it passes for a name, and is none. -/
theorem Schema.letter_and_break_passes :
    (SchemaDeclaration.calling "a\n").schema = .ok (.calling "a\n")
      ∧ (calling "a\n").assumeValid = false
      ∧ (calling "a\n").check = .ok ()
      ∧ (calling "a\n").Names (.str "a\n")
      ∧ nameProblem (.str "a\n") = none
      ∧ ¬ IsWritable (.str "a\n") := by
  refine ⟨SchemaDeclaration.schema_calling "a\n", rfl, check_calling "a\n" (.inr rfl),
    names_calling "a\n", by decide, ?_⟩
  rintro ⟨_, ⟨⟩, word, _⟩
  exact absurd ((isNameText_iff "a\n").2 word) (by decide)

end GraphQL
