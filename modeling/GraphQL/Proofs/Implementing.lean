import GraphQL.Proofs.ArgumentTypes
import GraphQL.Proofs.Names
import GraphQL.Proofs.Subtyping

/-!
Calling the fields of an interface on what implements it. An implementation takes every argument of an
interface's field, with the same type. So what binds for the interface binds for the implementation
too, as long as that can do without what is left out and reads what the interface does not know.
-/

namespace GraphQL

/-- An argument that can be left out. -/
def InputValue.IsOptional (argument : InputValue) : Prop :=
  argument.hasDefault = true ∨ ∃ type, argument.type = .ok type ∧ type.isNonNull = false

/-- Arguments that ask for no more than others: one that is not among the others can be left out, and
so can one that has a default among them. -/
def Table.Extends (own expected : Table InputValue) : Prop :=
  ∀ entry ∈ own.entries, entry.2.IsOptional
    ∨ ∃ shared, expected.get? entry.1 = some shared ∧ shared.hasDefault = false

theorem TypeRef.eq_of_denotesSame {left right : TypeRef}
    (same : left.denotesSame right = .ok true) : left = right := by
  fun_induction denotesSame left right with
  | case1 => cases same
  | case2 => cases same
  | case3 left right => rw [of_decide_eq_true (Except.ok.inj same)]
  | case4 left right ih => rw [ih same]
  | case5 left right ih => rw [ih same]
  | case6 => cases same

namespace Value

variable {α : Type}

theorem lookup?_str_of_mem {entries : List (Value × α)}
    (distinct : entries.Pairwise fun earlier later => earlier.1.isKey later.1 = false)
    {key : String} {value : α} (member : (.str key, value) ∈ entries) :
    lookup? entries (.str key) = some value := by
  induction entries with
  | nil => cases member
  | cons entry rest ih =>
      obtain ⟨apart, later⟩ := List.pairwise_cons.1 distinct
      rw [lookup?, List.find?_cons]
      rcases List.mem_cons.1 member with rfl | inside
      · simp only [isKey_str, decide_true, Option.map_some]
      · rw [apart _ inside]
        exact ih later inside

end Value

namespace Action

variable {σ α β : Type} {answer : Call → σ → Reply × σ}

/-- An action that succeeds in whatever state it runs. -/
def Succeeds (answer : Call → σ → Reply × σ) (action : Action α) : Prop :=
  action.Ensures answer fun result => ∃ value, result = .ok value

theorem succeeds_of_run (alike : ReadsAlike answer) {action : Action α}
    (reads : action.Within Call.ReadsLiteral fun _ => True) {state : σ} {value : α}
    (ran : (action.run answer state).1 = .ok value) : action.Succeeds answer :=
  fun other => ⟨value, (run_of_answersAlike alike action reads other state).trans ran⟩

theorem Succeeds.bind {action : Action α} {next : α → Action β} (first : action.Succeeds answer)
    (second : ∀ value, (next value).Succeeds answer) : (action >>= next).Succeeds answer :=
  ensures_bind first (fun value _ => second value) fun _ ⟨_, same⟩ => by cases same

end Action

namespace Input

variable {σ : Type} {answer : Call → σ → Reply × σ} {schema : Schema} {vars : Variables}
  {place : Nat} {given : List ArgumentNode} {name : Value} {argument other : InputValue}
  {type : TypeRef}

theorem reads_bindArgument (schema : Schema) (vars : Variables) (place : Nat)
    (given : List ArgumentNode) (name : Value) (argument : InputValue) :
    (bindArgument schema.toLayout vars place given name argument).Within Call.ReadsLiteral
      fun _ => True :=
  within_bindArgument (lenient_readsLiteral.selects schema).toReads place given name argument
    ⟨fun _ _ => trivial, fun _ _ => trivial⟩

theorem bindArgument_of_supplied (supplied : isSupplied vars given name = true)
    (typed : argument.type = .ok type) (same : other.type = .ok type) :
    bindArgument schema.toLayout vars place given name argument
      = bindArgument schema.toLayout vars place given name other := by
  unfold isSupplied at supplied
  rw [bindArgument, bindArgument, worked_bind typed, worked_bind same]
  cases found : given.reverse.find? fun found => name.equals (.str found.name) with
  | none =>
      rw [found] at supplied
      cases supplied
  | some node =>
      rw [found, Option.any_some, isMissing_eq] at supplied
      simp only
      cases unset : node.value.reference?.filter
        fun variable_ => (vars.lookup variable_).isNone with
      | some variable_ =>
          rw [unset] at supplied
          cases supplied
      | none => rfl

theorem succeeds_omitted_iff (typed : argument.type = .ok type)
    (refuse : TypeRef → Action (Option Value))
    (refuses : ∀ state value, ((refuse type).run answer state).1 ≠ .ok value) (state : σ) :
    (∃ value, ((omitted argument refuse).run answer state).1 = .ok value)
      ↔ argument.IsOptional := by
  have worked : (do
      let type ← liftM argument.type
      if type.isNonNull then refuse type else return none : Action (Option Value))
        = if type.isNonNull then refuse type else return none := worked_bind typed _
  unfold omitted InputValue.IsOptional
  cases preset : argument.hasDefault with
  | true =>
      simp only [if_true, true_or, iff_true]
      exact ⟨_, rfl⟩
  | false =>
      rw [worked]
      simp only [Bool.false_eq_true, if_false, false_or, typed, Except.ok.injEq, exists_eq_left']
      cases type.isNonNull with
      | true => simpa using refuses state
      | false => exact ⟨fun _ => rfl, fun _ => ⟨none, rfl⟩⟩

theorem binds_iff_of_unsupplied (left : isSupplied vars given name = false)
    (typed : argument.type = .ok type) (state : σ) :
    (∃ value, ((bindArgument schema.toLayout vars place given name argument).run answer
        state).1 = .ok value)
      ↔ argument.IsOptional := by
  have refuses : ∀ (place : Nat) (problem : String → ArgumentProblem) (state : σ)
      (value : Option Value), ((do refuseArgument place name (problem (← schema.text type)) :
        Action (Option Value)).run answer state).1 ≠ .ok value := by
    intro place problem state value ran
    obtain ⟨_, _, ran⟩ := Action.ok_of_run_bind ran
    cases ran
  unfold isSupplied at left
  rw [bindArgument, worked_bind typed]
  cases found : given.reverse.find? fun found => name.equals (.str found.name) with
  | none => exact succeeds_omitted_iff typed _ (refuses _ _) state
  | some node =>
      rw [found, Option.any_some, isMissing_eq] at left
      simp only
      cases unset : node.value.reference?.filter
        fun variable_ => (vars.lookup variable_).isNone with
      | some variable_ => exact succeeds_omitted_iff typed _ (refuses _ _) state
      | none =>
          rw [unset] at left
          cases left

theorem succeeds_bindArguments (declared : List (Value × InputValue))
    (each : ∀ entry ∈ declared,
      (bindArgument schema.toLayout vars place given entry.1 entry.2).Succeeds answer) :
    (bindArguments schema.toLayout vars place given declared).Succeeds answer := by
  induction declared with
  | nil => exact fun state => ⟨[], rfl⟩
  | cons entry rest ih =>
      obtain ⟨name, argument⟩ := entry
      have later := ih fun other inside => each other (List.mem_cons_of_mem _ inside)
      rw [bindArguments]
      refine (each _ List.mem_cons_self).bind fun bound => ?_
      cases bound with
      | some value => exact later.bind fun others state => ⟨_, rfl⟩
      | none => exact later

theorem succeeds_of_bindArguments (alike : ReadsAlike answer)
    (declared : List (Value × InputValue)) {state : σ} {bound : List (Value × Value)}
    (binds : ((bindArguments schema.toLayout vars place given declared).run answer state).1
      = .ok bound) :
    ∀ entry ∈ declared,
      (bindArgument schema.toLayout vars place given entry.1 entry.2).Succeeds answer := by
  induction declared generalizing state bound with
  | nil =>
      intro entry inside
      cases inside
  | cons entry rest ih =>
      obtain ⟨name, argument⟩ := entry
      rw [bindArguments] at binds
      obtain ⟨first, ran, binds⟩ := Action.ok_of_run_bind binds
      intro other inside
      rcases List.mem_cons.1 inside with rfl | later
      · exact Action.succeeds_of_run alike (reads_bindArgument schema _ _ _ _ _) ran
      · cases first with
        | some value =>
            obtain ⟨others, binds, _⟩ := Action.ok_of_run_bind binds
            exact ih binds other later
        | none => exact ih binds other later

/-- Every argument of a field is taken with its type. -/
def TakesAll (taken expected : Table InputValue) : Prop :=
  ∀ shared ∈ expected.entries, ∃ argument type, taken.get? shared.1 = some argument
    ∧ argument.type = .ok type ∧ shared.2.type = .ok type

/-- What binds the arguments of another field binds those of one that takes them all, if that can do
without what is not supplied and binds what the other one does not know. -/
def Bears (answer : Call → σ → Reply × σ) (schema : Schema) (vars : Variables) (place : Nat)
    (given : List ArgumentNode) (taken expected : Table InputValue) : Prop :=
  ∀ entry ∈ taken.entries,
    (isSupplied vars given entry.1 = false → entry.2.IsOptional)
      ∧ (isSupplied vars given entry.1 = true → expected.get? entry.1 = none →
        (bindArgument schema.toLayout vars place given entry.1 entry.2).Succeeds answer)

section TakesAll

variable {taken expected : Table InputValue}

theorem TakesAll.shared (all : TakesAll taken expected) (texts : Value.UnderTexts taken.entries)
    {entry : Value × InputValue} (inside : entry ∈ taken.entries) {shared : InputValue}
    (found : expected.get? entry.1 = some shared) :
    (entry.1, shared) ∈ expected.entries
      ∧ ∃ type, entry.2.type = .ok type ∧ shared.type = .ok type := by
  obtain ⟨key, argument⟩ := entry
  obtain ⟨text, rfl⟩ := texts _ inside
  obtain ⟨⟨other, value⟩, located, rfl⟩ := Option.map_eq_some_iff.1 found
  have key : other.isKey (.str text) = true :=
    List.find?_some (p := fun entry : Value × InputValue => entry.1.isKey (.str text)) located
  obtain rfl := Value.key_eq_str_of_isKey key
  have member := List.mem_of_find?_eq_some located
  obtain ⟨known, type, looked, typed, expectedType⟩ := all _ member
  cases (Value.lookup?_str_of_mem taken.distinct inside).symm.trans looked
  exact ⟨member, type, typed, expectedType⟩

variable (all : TakesAll taken expected) (texts : Value.UnderTexts taken.entries)
  (binds : ∀ entry ∈ expected.entries,
    (bindArgument schema.toLayout vars place given entry.1 entry.2).Succeeds answer)
include all texts binds

theorem TakesAll.succeeds_iff (typed : ∀ entry ∈ taken.entries, ∃ type, entry.2.type = .ok type)
    (alike : ReadsAlike answer) (state : σ) :
    (bindArguments schema.toLayout vars place given taken.entries).Succeeds answer
      ↔ Bears answer schema vars place given taken expected := by
  constructor
  · intro succeeds entry inside
    obtain ⟨bound, ran⟩ := succeeds state
    have one := succeeds_of_bindArguments alike taken.entries ran entry inside
    obtain ⟨type, same⟩ := typed entry inside
    exact ⟨fun left => (binds_iff_of_unsupplied left same state).1 (one state), fun _ _ => one⟩
  · intro bears
    refine succeeds_bindArguments _ fun entry inside => ?_
    obtain ⟨optional, known⟩ := bears entry inside
    cases supplied : isSupplied vars given entry.1 with
    | false =>
        obtain ⟨type, same⟩ := typed entry inside
        exact fun state => (binds_iff_of_unsupplied supplied same state).2 (optional supplied)
    | true =>
        cases found : expected.get? entry.1 with
        | none => exact known supplied found
        | some shared =>
            obtain ⟨member, type, own, other⟩ := all.shared texts inside found
            rw [bindArgument_of_supplied supplied own other]
            exact binds _ member

/-- Arguments that ask for no more bear every node that writes none but the others. -/
theorem TakesAll.bears (state : σ) (extends_ : taken.Extends expected)
    (written : ∀ node ∈ given, (expected.find? node.name).isSome = true) :
    Bears answer schema vars place given taken expected := by
  intro entry inside
  refine ⟨fun left => ?_, fun supplied unknown => ?_⟩
  · rcases extends_ entry inside with optional | ⟨shared, found, plain⟩
    · exact optional
    · obtain ⟨member, type, own, other⟩ := all.shared texts inside found
      rcases (binds_iff_of_unsupplied left other state).1 (binds _ member state) with
        preset | ⟨_, same, nullable⟩
      · rw [plain] at preset
        cases preset
      · cases other.symm.trans same
        exact .inr ⟨type, own, nullable⟩
  · obtain ⟨text, named⟩ := texts entry inside
    unfold isSupplied at supplied
    obtain ⟨node, found, _⟩ := Option.any_eq_true _ _ |>.1 supplied
    have same := List.find?_some found
    rw [named, Value.equals_str] at same
    have known := written node (List.mem_reverse.1 (List.mem_of_find?_eq_some found))
    rw [Table.find?, ← same, ← named, unknown] at known
    cases known

end TakesAll

end Input

namespace Schema

variable {declared : SchemaDeclaration} {schema : Schema}

theorem implements_fields (checked : schema.check = .ok ()) (strict : schema.assumeValid = false)
    {type interface : TypeId} (knows : schema.Knows type)
    (implements : schema.Implements type interface) :
    ∃ label own fields, (schema.definition type).fields? = some (.ok own)
      ∧ (schema.definition interface).fields? = some (.ok fields)
      ∧ ∀ entry ∈ fields.entries,
        schema.checkImplementedField label (schema.definition interface).label own entry
          = .ok () := by
  obtain ⟨interfaces, declares, member⟩ := implements_iff.1 implements
  obtain ⟨_, _, passes⟩ := Checked.ok_of_bind (checkDefinition_of_knows checked strict knows)
  -- an object and an interface are checked for their interfaces in the same way
  have inside : ∀ label fields, schema.checkFieldsType label fields (.ok interfaces) = .ok () →
      ∃ own expected, fields = .ok own
        ∧ (schema.definition interface).fields? = some (.ok expected)
        ∧ ∀ entry ∈ expected.entries,
          schema.checkImplementedField label (schema.definition interface).label own entry
            = .ok () := by
    intro label fields passes
    obtain ⟨own, worked, passes⟩ := Checked.ok_of_bind passes
    obtain ⟨_, _, passes⟩ := Checked.ok_of_bind passes
    obtain ⟨_, _, passes⟩ := Checked.ok_of_bind passes
    obtain ⟨_, ⟨⟩, passes⟩ := Checked.ok_of_bind passes
    obtain ⟨_, expected, ⟨⟩, _, given, each⟩ := interface_of_checkInterfaces passes _ member
    exact ⟨own, expected, worked, given, each⟩
  unfold TypeDef.interfaces at declares
  cases body : (schema.definition type).body with
  | object fields listed isTypeOf =>
      simp only [body] at declares passes
      subst declares
      obtain ⟨_, passes, _⟩ := Checked.ok_of_bind passes
      obtain ⟨own, expected, rfl, given, each⟩ := inside _ _ passes
      exact ⟨_, own, expected, by rw [TypeDef.fields?, body], given, each⟩
  | interface fields listed resolveType =>
      simp only [body] at declares passes
      subst declares
      obtain ⟨_, passes, _⟩ := Checked.ok_of_bind passes
      obtain ⟨own, expected, rfl, given, each⟩ := inside _ _ passes
      exact ⟨_, own, expected, by rw [TypeDef.fields?, body], given, each⟩
  | _ =>
      simp only [body, Except.ok.injEq] at declares
      subst declares
      cases member

theorem argument_of_checkImplementedArgument {label interface field : String}
    {taken : Table InputValue} {shared : Value × InputValue}
    (passes : schema.checkImplementedArgument label interface field taken shared = .ok ()) :
    ∃ argument type, taken.get? shared.1 = some argument ∧ argument.type = .ok type
      ∧ shared.2.type = .ok type := by
  unfold Layout.checkImplementedArgument at passes
  simp only at passes
  cases listed : taken.get? shared.1 with
  | none =>
      rw [listed] at passes
      cases passes
  | some argument =>
      rw [listed] at passes
      obtain ⟨type, typed, passes⟩ := Checked.ok_of_bind passes
      obtain ⟨expected, same, passes⟩ := Checked.ok_of_bind passes
      obtain ⟨denotes, compared, passes⟩ := Checked.ok_of_bind passes
      cases denotes with
      | false => cases passes
      | true =>
          rw [← TypeRef.eq_of_denotesSame compared] at same
          exact ⟨argument, type, rfl, typed, same⟩

theorem takesAll_of_checkImplementedField {label interface : String} {own : Table Field}
    {entry : Value × Field}
    (passes : schema.checkImplementedField label interface own entry = .ok ()) :
    ∃ field, own.get? entry.1 = some field ∧ ∀ taken expected, field.arguments = .ok taken →
      entry.2.arguments = .ok expected → Input.TakesAll taken expected := by
  unfold Layout.checkImplementedField at passes
  simp only at passes
  cases found : own.get? entry.1 with
  | none =>
      rw [found] at passes
      cases passes
  | some field =>
      rw [found] at passes
      obtain ⟨_, _, passes⟩ := Checked.ok_of_bind passes
      obtain ⟨_, _, passes⟩ := Checked.ok_of_bind passes
      obtain ⟨_, _, passes⟩ := Checked.ok_of_bind passes
      obtain ⟨_, _, passes⟩ := Checked.ok_of_bind passes
      obtain ⟨expected, given, passes⟩ := Checked.ok_of_bind passes
      refine ⟨field, rfl, fun taken other takes same shared inside => ?_⟩
      cases given.symm.trans same
      cases none_ : expected.isEmpty with
      | true =>
          rw [Table.isEmpty, List.isEmpty_iff] at none_
          rw [none_] at inside
          cases inside
      | false =>
          rw [none_] at passes
          obtain ⟨_, same, passes⟩ := Checked.ok_of_bind passes
          cases takes.symm.trans same
          exact argument_of_checkImplementedArgument (Except.all_of_forM _ _ passes shared inside)

section Accepted

variable (made : declared.schema = .ok schema) (checked : schema.check = .ok ())
  (strict : schema.assumeValid = false)
include made checked strict

theorem fields_underTexts {id : TypeId} {fields : Table Field} (knows : schema.Knows id)
    (some_ : (schema.definition id).fields? = some (.ok fields)) :
    Value.UnderTexts fields.entries ∧ ∀ field ∈ fields.items, ∀ arguments,
      field.arguments = .ok arguments → Value.UnderTexts arguments.entries := by
  refine ⟨fun entry inside => ?_, fun field inside arguments given entry member => ?_⟩
  · exact isText_of_nameProblem (passes_of_names made checked strict
      (.field knows some_ ⟨entry, inside, .inl rfl⟩))
  · exact isText_of_nameProblem (passes_of_names made checked strict
      (.argument knows some_ inside given ⟨entry, member, .inl rfl⟩))

/-- An implementation has each field of the interface, which takes all arguments of it. -/
theorem takesAll_of_implements {type interface : TypeId} (knows : schema.Knows type)
    (implements : schema.Implements type interface) {name : String} {field : Field}
    (looked : schema.field? interface name = .ok (some field)) :
    ∃ own taken expected, schema.field? type name = .ok (some own) ∧ own.arguments = .ok taken
      ∧ field.arguments = .ok expected ∧ Input.TakesAll taken expected
      ∧ Value.UnderTexts taken.entries
      ∧ ∀ entry ∈ taken.entries, ∃ type, entry.2.type = .ok type := by
  unfold Layout.field? at looked ⊢
  split at looked
  · next typename =>
      cases looked
      refine ⟨.typename, .empty, .empty, if_pos typename, rfl, rfl, ?_, ?_, ?_⟩ <;>
        intro entry inside <;> cases inside
  · next other =>
      obtain ⟨_, checks⟩ := checks_of_check checked strict
      have knowsInterface := (interface_of_implements checks.toVetted knows implements).1
      obtain ⟨label, own, fields, ownFields, interfaceFields, each⟩ :=
        implements_fields checked strict knows implements
      rw [interfaceFields] at looked
      obtain ⟨_, ⟨⟩, looked⟩ := Checked.ok_of_bind looked
      obtain ⟨⟨key, _⟩, located, rfl⟩ := Option.map_eq_some_iff.1 (Except.ok.inj looked)
      have same : key.isKey (.str name) = true :=
        List.find?_some (p := fun entry : Value × Field => entry.1.isKey (.str name)) located
      obtain rfl := Value.key_eq_str_of_isKey same
      have member := List.mem_of_find?_eq_some located
      obtain ⟨ownField, found, all⟩ := takesAll_of_checkImplementedField (each _ member)
      have inside := own.mem_items_of_get? _ _ found
      obtain ⟨taken, takes, typed⟩ :=
        declares_of_takes checked strict (.field knows ownFields inside)
      obtain ⟨expected, expects, _⟩ := declares_of_takes checked strict
        (.field knowsInterface interfaceFields (List.mem_map_of_mem member))
      refine ⟨ownField, taken, expected, ?_, takes, expects, all _ _ takes expects,
        (fields_underTexts made checked strict knows ownFields).2 _ inside _ takes, ?_⟩
      · rw [if_neg other, ownFields]
        exact congrArg Except.ok found
      · intro entry inside
        obtain ⟨type, _, same, _⟩ := typed _ (List.mem_map_of_mem inside)
        exact ⟨type, same⟩

end Accepted

/-- A field of an interface can be called on what implements it: where the arguments of a node bind for
the interface's field, they bind for the implementation's exactly if that can do without what is not
supplied and binds what the interface does not know. So they do if the implementation asks for no more,
and nothing is written that the interface does not know. -/
theorem interface_fields_can_be_called (declared : SchemaDeclaration) (schema : Schema)
    (made : declared.schema = .ok schema) (checked : schema.check = .ok ())
    (strict : schema.assumeValid = false) {type interface : TypeId} (knows : schema.Knows type)
    (implements : schema.Implements type interface) {name : String} {field : Field}
    (looked : schema.field? interface name = .ok (some field)) :
    ∃ own taken expected, schema.field? type name = .ok (some own) ∧ own.arguments = .ok taken
      ∧ field.arguments = .ok expected
      ∧ ∀ {σ : Type} (answer : Call → σ → Reply × σ), ReadsAlike answer →
        ∀ vars place given state,
          (∃ bound, ((Input.arguments schema.toLayout vars place given field.arguments).run answer
            state).1 = .ok bound) →
          ((Input.arguments schema.toLayout vars place given own.arguments).Succeeds answer
              ↔ Input.Bears answer schema vars place given taken expected)
            ∧ (taken.Extends expected →
              (∀ node ∈ given, (expected.find? node.name).isSome = true) →
              (Input.arguments schema.toLayout vars place given own.arguments).Succeeds answer) := by
  obtain ⟨own, taken, expected, found, takes, expects, all, texts, typed⟩ :=
    takesAll_of_implements made checked strict knows implements looked
  refine ⟨own, taken, expected, found, takes, expects, ?_⟩
  rintro σ answer alike vars place given state ⟨bound, binds⟩
  have worked : ∀ {inputs : Inputs} {table : Table InputValue}, inputs = .ok table →
      Input.arguments schema.toLayout vars place given inputs
        = Input.bindArguments schema.toLayout vars place given table.entries := by
    rintro _ _ rfl
    rfl
  rw [worked expects] at binds
  have each := Input.succeeds_of_bindArguments alike expected.entries binds
  have exactly_ := all.succeeds_iff texts each typed alike state
  rw [worked takes]
  exact ⟨exactly_, fun extends_ written =>
    exactly_.2 (all.bears texts each state extends_ written)⟩

end Schema

/-- A root type that implements an interface, whose field takes one more argument than the
interface's. -/
def SchemaDeclaration.widening (more : TypeExpr) : SchemaDeclaration where
  types := [
    ⟨.str "Query", .object (.listed [(.str "f", .declared
      { type := .named (.standard .int)
        arguments := .listed
          [(.str "x", .bare (.nonNull (.named (.standard .int)))), (.str "y", .bare more)]
        resolve := .absent
        complexity := .absent
        deprecated := none
        name := none })]) (.listed [.named (.declared 1)]) .absent⟩,
    ⟨.str "Base", .interface (.listed [(.str "f", .declared
      { type := .named (.standard .int)
        arguments := .listed [(.str "x", .bare (.nonNull (.named (.standard .int))))]
        resolve := .absent
        complexity := .absent
        deprecated := none
        name := none })]) (.listed []) .absent⟩]
  query := some (.named (.declared 0))
  directives := []

namespace Schema

/-- What becomes of it. -/
def widening (more : TypeExpr) : Schema := .ofLayout
  { types := ((SchemaDeclaration.widening more).types.map
      (Declaration.typeDef (.ofDeclarations (SchemaDeclaration.widening more).types))).toArray
    query := some (.named (.declared 0))
    mutation := none
    subscription := none
    extra := []
    directives := []
    overrides := []
    assumeValid := false }

theorem schema_widening (more : TypeExpr) :
    (SchemaDeclaration.widening more).schema = .ok (widening more) := by
  cbv

/-- A number, or one that has to be given. -/
def optionalNumber : TypeExpr := .named (.standard .int)

def requiredNumber : TypeExpr := .nonNull optionalNumber

def wideningTypes : TypeMap :=
  [(.str "Query", .declared 0), (.str "Base", .declared 1), (.str "Int", .standard .int)]

theorem reached_widening (more : TypeExpr)
    (either : more = optionalNumber ∨ more = requiredNumber) :
    (widening more).reached = .ok wideningTypes := by
  rcases either with rfl | rfl
  · cbv
  · cbv

set_option maxRecDepth 10000 in
theorem check_widening (more : TypeExpr) (either : more = optionalNumber ∨ more = requiredNumber) :
    (widening more).check = .ok () := by
  have reached := reached_widening more either
  unfold check
  rw [reached]
  rcases either with rfl | rfl
  · cbv
  · cbv

theorem implements_widening (more : TypeExpr) :
    (widening more).Implements (.declared 0) (.declared 1) :=
  implements_iff.2 ⟨_, rfl, List.mem_cons_self⟩

/-- The argument that both fields take, and the one that only the root type's takes. -/
def sharedArgument : InputValue := ⟨.str "x", .ok (.nonNull (.named (.standard .int))), .undefined⟩

def furtherArgument (more : TypeRef) : InputValue := ⟨.str "y", .ok more, .undefined⟩

/-- The field as the interface declares it. -/
def narrowField : Field :=
  { name := .str "f"
    type := .ok (.named (.standard .int))
    arguments := .ok (.ofList [(.str "x", sharedArgument)])
    resolve := .absent
    complexity := .absent
    deprecated := none }

/-- The field as the root type declares it. -/
def wideField (more : TypeRef) : Field :=
  { narrowField with
    arguments := .ok (.ofList [(.str "x", sharedArgument), (.str "y", furtherArgument more)]) }

theorem entries_wide (more : TypeRef) :
    (Table.ofList [(.str "x", sharedArgument), (.str "y", furtherArgument more)]).entries
      = [(.str "x", sharedArgument), (.str "y", furtherArgument more)] := by
  cbv

theorem field_narrow (more : TypeExpr) :
    (widening more).field? (.declared 1) "f" = .ok (some narrowField) := by
  cbv

/-- The argument that the interface's field takes. -/
def narrowNodes : List ArgumentNode := [⟨0, "x", .int 0 "5"⟩]

theorem binds_narrow (more : TypeExpr) :
    ((Input.arguments (widening more).toLayout [] 0 narrowNodes narrowField.arguments).run answerOne
      ()).1 = .ok [(.str "x", .int 5)] := by
  cbv

/-- What takes one more argument that can be left out can be called like the interface. -/
theorem optional_argument_is_no_hindrance :
    (SchemaDeclaration.widening optionalNumber).schema = .ok (widening optionalNumber)
      ∧ (widening optionalNumber).check = .ok ()
      ∧ (widening optionalNumber).assumeValid = false
      ∧ (widening optionalNumber).Knows (.declared 0)
      ∧ (widening optionalNumber).Implements (.declared 0) (.declared 1)
      ∧ (widening optionalNumber).field? (.declared 1) "f" = .ok (some narrowField)
      ∧ ReadsAlike answerOne
      ∧ ∃ own, (widening optionalNumber).field? (.declared 0) "f" = .ok (some own)
        ∧ (Input.arguments (widening optionalNumber).toLayout [] 0 narrowNodes
          own.arguments).Succeeds answerOne := by
  have accepted := check_widening optionalNumber (.inl rfl)
  have knows : (widening optionalNumber).Knows (.declared 0) :=
    ⟨_, .str "Query", reached_widening _ (.inl rfl), List.mem_cons_self⟩
  have alike : ReadsAlike answerOne := fun _ _ _ _ => rfl
  have wide : (widening optionalNumber).field? (.declared 0) "f"
      = .ok (some (wideField (.named (.standard .int)))) := by
    cbv
  obtain ⟨own, taken, expected, found, takes, expects, can⟩ :=
    interface_fields_can_be_called _ _ (schema_widening optionalNumber) accepted rfl knows
      (implements_widening _) (field_narrow _)
  cases wide.symm.trans found
  cases takes
  cases expects
  refine ⟨schema_widening _, accepted, rfl, knows, implements_widening _, field_narrow _, alike, _,
    found, (can answerOne alike [] 0 narrowNodes () ⟨_, binds_narrow _⟩).2 ?_ ?_⟩
  · intro entry inside
    rw [entries_wide] at inside
    rcases List.mem_cons.1 inside with rfl | inside
    · exact .inr ⟨sharedArgument, rfl, rfl⟩
    · cases List.mem_singleton.1 inside
      exact .inl (.inr ⟨_, rfl, rfl⟩)
  · intro node inside
    cases List.mem_singleton.1 inside
    cbv

/-- What takes one more argument that has to be given cannot. -/
theorem required_argument_is_missed :
    (SchemaDeclaration.widening requiredNumber).schema = .ok (widening requiredNumber)
      ∧ (widening requiredNumber).check = .ok ()
      ∧ (widening requiredNumber).assumeValid = false
      ∧ (widening requiredNumber).Knows (.declared 0)
      ∧ (widening requiredNumber).Implements (.declared 0) (.declared 1)
      ∧ (widening requiredNumber).field? (.declared 1) "f" = .ok (some narrowField)
      ∧ ((Input.arguments (widening requiredNumber).toLayout [] 0 narrowNodes
        narrowField.arguments).run answerOne ()).1 = .ok [(.str "x", .int 5)]
      ∧ ∃ own error, (widening requiredNumber).field? (.declared 0) "f" = .ok (some own)
        ∧ ((Input.arguments (widening requiredNumber).toLayout [] 0 narrowNodes own.arguments).run
            answerOne ()).1 = .error (.response error)
        ∧ error.message = "Argument \"y\" of required type \"Int!\" was not provided." := by
  refine ⟨schema_widening _, check_widening _ (.inr rfl), rfl,
    ⟨_, .str "Query", reached_widening _ (.inr rfl), List.mem_cons_self⟩, implements_widening _,
    field_narrow _, binds_narrow _, wideField (.nonNull (.named (.standard .int))), ?_⟩
  refine ⟨_, by cbv, by cbv, rfl⟩

end Schema

end GraphQL
