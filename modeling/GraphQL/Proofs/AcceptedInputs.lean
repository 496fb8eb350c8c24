import GraphQL.Proofs.InputTypes

/-!
The inputs of schemas that pass their check. Whatever a field, a directive or an input type of the
schema takes is of a known input type, which leads to known input types again.
-/

namespace GraphQL

theorem Checked.ok_of_bind {α β : Type} {first : Checked α} {next : α → Checked β} {result : β}
    (ok : (first >>= next) = .ok result) :
    ∃ value, first = .ok value ∧ next value = .ok result := by
  cases first with
  | error fault => cases ok
  | ok value => exact ⟨value, rfl, ok⟩

namespace Layout

variable {layout : Layout}

theorem holds_of_checkType {test : TypeRef → Checked Bool} {type : TypeRef}
    {fault : String → SchemaFault} (passes : layout.checkType test type fault = .ok ()) :
    test type = .ok true := by
  obtain ⟨holds, tested, passes⟩ := Checked.ok_of_bind passes
  cases holds with
  | true => exact tested
  | false => cases passes

theorem input_of_checked {named : Checked Unit} {input : InputValue} {fault : String → SchemaFault}
    (passes : (do named; layout.checkType layout.isInputType (← input.type) fault) = .ok ()) :
    ∃ type, input.type = .ok type ∧ layout.isInputType type = .ok true := by
  obtain ⟨_, _, passes⟩ := Checked.ok_of_bind passes
  obtain ⟨type, typed, passes⟩ := Checked.ok_of_bind passes
  exact ⟨type, typed, holds_of_checkType passes⟩

end Layout

theorem InputValue.mem_references {inputs : List InputValue} {references : List Candidate}
    (refers : inputs.mapM InputValue.reference = .ok references) (input : InputValue)
    (inside : input ∈ inputs) (type : TypeRef) (typed : input.type = .ok type) :
    .type type ∈ references := by
  obtain ⟨candidate, member, refers⟩ := Except.mem_of_mapM _ _ _ refers input inside
  rw [InputValue.reference, typed] at refers
  cases refers
  exact member

theorem Field.mem_references {field : Field} {references : List Candidate}
    (refers : field.references = .ok references) :
    ∃ declared, field.arguments = .ok declared ∧ ∀ input ∈ declared.items, ∀ type,
      input.type = .ok type → .type type ∈ references := by
  obtain ⟨own, _, refers⟩ := Checked.ok_of_bind refers
  obtain ⟨declared, some_, refers⟩ := Checked.ok_of_bind refers
  obtain ⟨others, each, refers⟩ := Checked.ok_of_bind refers
  cases refers
  exact ⟨declared, some_, fun input inside type typed =>
    List.mem_cons_of_mem _ (InputValue.mem_references each input inside type typed)⟩

theorem TypeDef.fields_references {type : TypeDef} {fields : Checked (Table Field)}
    {references : List Candidate} (some_ : type.fields? = some fields)
    (refers : type.references = .ok references) :
    ∃ table, fields = .ok table ∧ ∀ field ∈ table.items, ∃ own, field.references = .ok own
      ∧ own ⊆ references := by
  have inside : ∀ interfaces, fieldReferences fields interfaces = .ok references →
      ∃ table, fields = .ok table ∧ ∀ field ∈ table.items, ∃ own, field.references = .ok own
        ∧ own ⊆ references := by
    intro interfaces refers
    obtain ⟨implemented, _, refers⟩ := Checked.ok_of_bind refers
    obtain ⟨table, fine, refers⟩ := Checked.ok_of_bind refers
    obtain ⟨lists, each, refers⟩ := Checked.ok_of_bind refers
    cases refers
    refine ⟨table, fine, fun field member => ?_⟩
    obtain ⟨own, listed, refers⟩ := Except.mem_of_mapM _ _ _ each field member
    exact ⟨own, refers, fun candidate inside =>
      List.mem_append_right _ (List.mem_flatten.2 ⟨own, listed, inside⟩)⟩
  unfold fields? at some_
  unfold TypeDef.references at refers
  cases body : type.body with
  | object own interfaces isTypeOf =>
      rw [body] at some_ refers
      cases some_
      exact inside interfaces refers
  | interface own interfaces resolveType =>
      rw [body] at some_ refers
      cases some_
      exact inside interfaces refers
  | _ =>
      rw [body] at some_
      cases some_

namespace Schema

/-- The types whose values a request can supply: those of the type map, and those that the
directives of every schema take. -/
def TakesInput (schema : Schema) (id : TypeId) : Prop :=
  (schema.kindOf id).isInput = true
    ∧ (schema.Knows (schema.leafInEffect id) ∨ id = .standard .boolean ∨ id = .standard .string)

/-- The inputs that the fields and the directives of a schema take. -/
inductive Takes (schema : Schema) : Inputs → Prop where
  | field {parent : TypeId} {fields : Table Field} {field : Field} : schema.Knows parent →
    (schema.definition parent).fields? = some (.ok fields) → field ∈ fields.items →
    Takes schema field.arguments
  | directive {directive : Directive} : directive ∈ schema.directives →
    Takes schema directive.arguments
  | specified {directive : Directive} : directive ∈ Directive.specified →
    Takes schema directive.arguments

variable {schema : Schema} {found : TypeMap}

theorem declares_of_covers (reached : schema.reached = .ok found) {input : InputValue}
    {type : TypeRef} (typed : input.type = .ok type) (takes : schema.isInputType type = .ok true)
    (covers : schema.Covers found (.type type)) : input.Declares schema.TakesInput := by
  obtain ⟨inner, name, leads, member⟩ := covers type rfl
  rw [Layout.isInputType, Layout.innermostIs, leads] at takes
  exact ⟨type, inner, typed, leads, Except.ok.inj takes, .inl ⟨found, name, reached, member⟩⟩

theorem checkFieldsType_of_fields {type : TypeDef} {fields : Table Field}
    (some_ : type.fields? = some (.ok fields)) (passes : schema.checkDefinition type = .ok ()) :
    ∃ label, ∀ field ∈ fields.items, schema.checkField label field = .ok () := by
  have inside : ∀ label interfaces, schema.checkFieldsType label (.ok fields) interfaces = .ok () →
      ∀ field ∈ fields.items, schema.checkField label field = .ok () := by
    intro label interfaces passes
    obtain ⟨own, ⟨⟩, passes⟩ := Checked.ok_of_bind passes
    obtain ⟨_, _, passes⟩ := Checked.ok_of_bind passes
    obtain ⟨_, each, _⟩ := Checked.ok_of_bind passes
    exact Except.all_of_forM _ _ each
  obtain ⟨_, _, passes⟩ := Checked.ok_of_bind passes
  unfold TypeDef.fields? at some_
  cases body : type.body with
  | object own interfaces isTypeOf =>
      rw [body] at some_ passes
      cases some_
      obtain ⟨_, passes, _⟩ := Checked.ok_of_bind passes
      exact ⟨_, inside _ _ passes⟩
  | interface own interfaces resolveType =>
      rw [body] at some_ passes
      cases some_
      obtain ⟨_, passes, _⟩ := Checked.ok_of_bind passes
      exact ⟨_, inside _ _ passes⟩
  | _ =>
      rw [body] at some_
      cases some_

theorem arguments_of_checkField {label : String} {field : Field} {declared : Table InputValue}
    (some_ : field.arguments = .ok declared) (passes : schema.checkField label field = .ok ()) :
    ∀ input ∈ declared.items, ∃ type, input.type = .ok type
      ∧ schema.isInputType type = .ok true := by
  obtain ⟨_, _, passes⟩ := Checked.ok_of_bind passes
  obtain ⟨_, _, passes⟩ := Checked.ok_of_bind passes
  obtain ⟨_, _, passes⟩ := Checked.ok_of_bind passes
  obtain ⟨_, _, passes⟩ := Checked.ok_of_bind passes
  obtain ⟨_, _, passes⟩ := Checked.ok_of_bind passes
  obtain ⟨own, same, passes⟩ := Checked.ok_of_bind passes
  cases some_.symm.trans same
  exact fun input inside => Layout.input_of_checked (Except.all_of_forM _ _ passes input inside)

theorem mem_checkDirectives {directives : List Directive} {seen : List Value}
    (passes : schema.checkDirectives directives seen = .ok ()) :
    ∀ directive ∈ directives, schema.checkDirective directive = .ok () := by
  induction directives generalizing seen with
  | nil =>
      intro directive inside
      cases inside
  | cons first rest ih =>
      obtain ⟨_, here, passes⟩ := Checked.ok_of_bind passes
      obtain ⟨_, _, passes⟩ := Checked.ok_of_bind passes
      intro directive inside
      rcases List.mem_cons.1 inside with rfl | later
      · exact here
      · exact ih passes directive later

theorem arguments_of_checkDirective {directive : Directive} {declared : Table InputValue}
    (some_ : directive.arguments = .ok declared)
    (passes : schema.checkDirective directive = .ok ()) :
    ∀ input ∈ declared.items, ∃ type, input.type = .ok type
      ∧ schema.isInputType type = .ok true := by
  obtain ⟨_, _, passes⟩ := Checked.ok_of_bind passes
  obtain ⟨_, _, passes⟩ := Checked.ok_of_bind passes
  obtain ⟨own, same, passes⟩ := Checked.ok_of_bind passes
  cases some_.symm.trans same
  exact fun input inside => Layout.input_of_checked (Except.all_of_forM _ _ passes input inside)

theorem directive_origins {origins : List Candidate} (starts : schema.origins = .ok origins)
    {directive : Directive} (inside : directive ∈ schema.directives) :
    ∃ declared, directive.arguments = .ok declared ∧ ∀ input ∈ declared.items, ∀ type,
      input.type = .ok type → .type type ∈ origins := by
  obtain ⟨lists, each, starts⟩ := Checked.ok_of_bind starts
  cases starts
  obtain ⟨own, listed, refers⟩ := Except.mem_of_mapM _ _ _ each directive inside
  obtain ⟨declared, some_, refers⟩ := Checked.ok_of_bind refers
  refine ⟨declared, some_, fun input member type typed => List.mem_append_right _ ?_⟩
  exact List.mem_flatten.2 ⟨own, listed, InputValue.mem_references refers input member type typed⟩

theorem declares_specified {directive : Directive} (inside : directive ∈ Directive.specified) :
    ∃ declared, directive.arguments = .ok declared
      ∧ ∀ input ∈ declared.items, input.Declares schema.TakesInput := by
  rcases List.mem_cons.1 inside with rfl | inside
  · refine ⟨_, rfl, fun input taken => ?_⟩
    rw [List.mem_singleton.1 taken]
    exact ⟨_, .standard .boolean, rfl, rfl, rfl, .inr (.inl rfl)⟩
  · rcases List.mem_cons.1 inside with rfl | inside
    · refine ⟨_, rfl, fun input taken => ?_⟩
      rw [List.mem_singleton.1 taken]
      exact ⟨_, .standard .boolean, rfl, rfl, rfl, .inr (.inl rfl)⟩
    · rw [List.mem_singleton.1 inside]
      refine ⟨_, rfl, fun input taken => ?_⟩
      rw [List.mem_singleton.1 taken]
      exact ⟨_, .standard .string, rfl, rfl, rfl, .inr (.inr rfl)⟩

theorem declares_of_takes (checked : schema.check = .ok ()) (strict : schema.assumeValid = false)
    {inputs : Inputs} (takes : schema.Takes inputs) :
    ∃ declared, inputs = .ok declared
      ∧ ∀ input ∈ declared.items, input.Declares schema.TakesInput := by
  obtain ⟨found, checks⟩ := checks_of_check checked strict
  obtain ⟨origins, starts, walked⟩ := walked_of_reached checks.reached
  cases takes with
  | field knows some_ inside =>
      obtain ⟨other, name, reached, member⟩ := knows
      cases checks.reached.symm.trans reached
      obtain ⟨_, references, refers, covers⟩ := settled_of_reached reached _ member
      obtain ⟨table, ⟨⟩, each⟩ := TypeDef.fields_references some_ refers
      obtain ⟨own, refers, smaller⟩ := each _ inside
      obtain ⟨declared, some', refers⟩ := Field.mem_references refers
      obtain ⟨label, passes⟩ := checkFieldsType_of_fields some_ (checks.definitions _ member)
      refine ⟨declared, some', fun input taken => ?_⟩
      obtain ⟨type, typed, isInput⟩ := arguments_of_checkField some' (passes _ inside) input taken
      exact declares_of_covers reached typed isInput
        (covers _ (smaller (refers input taken type typed)))
  | directive inside =>
      obtain ⟨declared, some_, refers⟩ := directive_origins starts inside
      refine ⟨declared, some_, fun input taken => ?_⟩
      obtain ⟨type, typed, isInput⟩ := arguments_of_checkDirective some_
        (mem_checkDirectives checks.directives _ inside) input taken
      exact declares_of_covers checks.reached typed isInput
        (walked.covers _ (refers input taken type typed))
  | specified inside => exact declares_specified inside

/-- The input types of an accepted schema lead to input types of the schema. -/
theorem inputTypes_of_check (checked : schema.check = .ok ())
    (strict : schema.assumeValid = false) : InputTypes schema.toLayout schema.TakesInput := by
  obtain ⟨found, checks⟩ := checks_of_check checked strict
  have known : ∀ index, schema.TakesInput (.declared index) →
      ∃ name, (name, .declared index) ∈ found := by
    rintro index ⟨_, ⟨other, name, reached, member⟩ | ⟨⟨⟩⟩ | ⟨⟨⟩⟩⟩
    cases checks.reached.symm.trans reached
    exact ⟨name, member⟩
  constructor
  · intro id takes
    cases id with
    | standard scalar => exact ⟨scalar.name, rfl⟩
    | declared index =>
        obtain ⟨name, member⟩ := known index takes
        exact name_of_checkDefinition (checks.definitions _ member)
  · intro id takes
    cases id with
    | standard scalar => exact .inl rfl
    | declared index =>
      obtain ⟨name, member⟩ := known index takes
      have isInput := takes.1
      obtain ⟨_, references, refers, covers⟩ := settled_of_reached checks.reached _ member
      obtain ⟨_, _, passes⟩ := Checked.ok_of_bind (checks.definitions _ member)
      unfold Layout.kindOf TypeDef.kind at isInput ⊢
      cases body : (schema.definition (.declared index)).body with
      | input fields =>
          rw [TypeDef.references, body] at refers
          obtain ⟨table, some_, refers⟩ := Checked.ok_of_bind refers
          cases some_
          rw [body] at passes
          obtain ⟨own, ⟨⟩, passes⟩ := Checked.ok_of_bind passes
          obtain ⟨_, _, passes⟩ := Checked.ok_of_bind passes
          refine .inr ⟨table, rfl, fun entry inside => ?_⟩
          have item : entry.2 ∈ table.items := List.mem_map_of_mem inside
          obtain ⟨type, typed, isInput⟩ :=
            Layout.input_of_checked (Except.all_of_forM _ _ passes _ item)
          exact declares_of_covers checks.reached typed isInput
            (covers _ (InputValue.mem_references refers _ item type typed))
      | scalar rule => exact .inl rfl
      | enum values => exact .inl rfl
      | _ =>
          rw [body] at isInput
          cases isInput

end Schema

/-- The coordinates of a point, the second of which may be left out. -/
def InputValue.coordinates : List (Value × InputValue) :=
  [(.str "x", ⟨.str "x", .ok (.nonNull (.named (.standard .int))), .undefined⟩),
    (.str "y", ⟨.str "y", .ok (.named (.standard .int)), .int 0⟩)]

def InputValue.points : InputValue :=
  ⟨.str "points", .ok (.list (.nonNull (.named (.declared 1)))), .undefined⟩

def InputValue.token : InputValue :=
  ⟨.str "token", .ok (.nonNull (.named (.declared 2))), .undefined⟩

/-- A schema with a field that takes points and a token, which the application reads. -/
def Schema.taking : Schema := .ofLayout
  { types := #[
      ⟨.str "Query", .object
        (.ok (.ofList [(.str "f",
          ⟨.str "f", .ok (.named (.standard .int)),
            .ok (.ofList [(.str "points", .points), (.str "token", .token)]), .absent, .absent,
            none⟩)]))
        (.ok []) .absent⟩,
      ⟨.str "Point", .input (.ok (.ofList InputValue.coordinates))⟩,
      ⟨.str "Token", .scalar (.custom (.function 0) (.function 1) (.function 2))⟩]
    query := some (.named (.declared 0))
    mutation := none
    subscription := none
    extra := []
    directives := Directive.specified
    overrides := []
    assumeValid := false }

theorem InputValue.entries_coordinates :
    (Table.ofList coordinates).entries = coordinates := by
  cbv

set_option maxRecDepth 10000 in
theorem Schema.reached_taking : taking.reached = .ok [(.str "Query", .declared 0),
    (.str "Int", .standard .int), (.str "Point", .declared 1), (.str "Token", .declared 2),
    (.str "Boolean", .standard .boolean), (.str "String", .standard .string)] := by
  cbv

set_option maxRecDepth 10000 in
theorem Schema.check_taking : taking.check = .ok () := by
  unfold check
  rw [reached_taking]
  decide +kernel

end GraphQL
