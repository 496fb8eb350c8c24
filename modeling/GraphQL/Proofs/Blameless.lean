import GraphQL.Proofs.Building
import GraphQL.Proofs.Ordinary
import GraphQL.Proofs.Preparing
import GraphQL.Proofs.Written

/-!
Failures for which no schema is to blame. A schema that passes its check, and so do the types that
stand in for the scalars of every schema, gives no occasion for another one: whatever a request can
lead to is worked out, and is of the kind that is expected there.
-/

namespace GraphQL

/-- The kinds of errors which say that a schema, or what was made of it, is wrong. -/
def FailureKind.blames : FailureKind → Bool
  | .invariant | .assertion => true
  | _ => false

/-- An error that does not report a schema as wrong. -/
def ResponseError.Blameless (error : ResponseError) : Prop :=
  ∀ kind, error.origin = some kind → kind.blames = false

/-- A failure for which no schema is to blame. -/
structure Failure.Blameless (failure : Failure) : Prop where
  kind : failure.kind.blames = false
  error : ∀ error, failure = .response error → error.Blameless

namespace Failure

theorem blameless_of_kind {failure : Failure} (kind : failure.kind.blames = false)
    (other : ∀ error, failure ≠ .response error) : failure.Blameless :=
  ⟨kind, fun error same => absurd same (other error)⟩

theorem blameless_response {error : ResponseError} (blameless : error.Blameless) :
    (response error).Blameless :=
  ⟨rfl, fun _ same => by cases same; exact blameless⟩

theorem blameless_of_origin {error : ResponseError} (none_ : error.origin = none) :
    (response error).Blameless :=
  blameless_response fun kind same => by rw [none_] at same; cases same

theorem blameless_value (fault : ValueFault) : (value fault).Blameless :=
  blameless_of_kind (by cases fault <;> rfl) fun _ same => by cases same

theorem blameless_asynchronous : Failure.asynchronous.Blameless :=
  blameless_of_kind rfl fun _ same => by cases same

theorem Blameless.locate {failure : Failure} (blameless : failure.Blameless) (nodes : List Nat)
    (path : List PathKey) : (failure.locate nodes path).Blameless := by
  cases failure with
  | response error =>
      simp only [Failure.locate]
      split
      · exact blameless.error error rfl
      · rintro kind ⟨⟩
        rfl
  | _ =>
      rintro kind ⟨⟩
      exact blameless.kind

end Failure

/-- Reading a document blames no schema, unless the schema has a fault. -/
theorem mild_blameless : Mild (fun _ => True) Failure.Blameless where
  literals _ _ _ := trivial
  response _ _ none_ := Failure.blameless_of_origin none_
  value := Failure.blameless_value
  leaf fault := by
    obtain ⟨direction, problem⟩ := fault
    exact Failure.blameless_of_kind (by cases direction <;> rfl) fun _ same => by cases same

/-- A value that offers no error of a kind that blames a schema. -/
def Value.Blameless (value : Value) : Prop :=
  ∀ thrown, value.Offers (.error thrown) → thrown.kind.blames = false

namespace Value

theorem Blameless.item {value item : Value} {items : List Value} (blameless : value.Blameless)
    (listed : Completion.listItems? value = some items) (member : item ∈ items) : item.Blameless :=
  fun thrown offers => blameless thrown (.item listed member offers)

theorem Blameless.part {value part : Value} {name : String} (blameless : value.Blameless)
    (found : value.get? name = some part) : part.Blameless :=
  fun thrown offers => blameless thrown (.part found offers)

theorem Blameless.result {receiver arguments context result : Value} {name : String}
    (blameless : (Value.method receiver name).Blameless)
    (called : receiver.callMethod name arguments context = .ok result) : result.Blameless :=
  fun thrown offers => blameless thrown (.result called offers)

theorem Bare.blameless {value : Value} (bare : value.Bare) : value.Blameless := by
  intro thrown offers
  cases bare.offers offers

theorem Blameless.failure {value : Value} (blameless : value.Blameless) {failure : Failure}
    (found : Failure.ofValue? value = some failure) : failure.Blameless := by
  cases value with
  | error thrown =>
      cases found
      have kind := blameless thrown (.self _)
      unfold Failure.ofThrown
      split
      · exact Failure.blameless_of_origin rfl
      · exact Failure.blameless_of_kind kind fun _ same => by cases same
  | undefined =>
      cases found
      exact Failure.blameless_of_kind rfl fun _ same => by cases same
  | _ => cases found

end Value

theorem Value.eq_str_of_isKey {text : String} {value : Value}
    (same : (Value.str text).isKey value = true) : value = .str text := by
  rw [isKey, Bool.or_eq_true] at same
  cases value with
  | str other =>
      obtain same | same := same
      · rw [identical, Bool.and_eq_true, decide_eq_true_eq] at same
        rw [same.1]
      · rw [(equals_str text other).1 same]
  | _ =>
      obtain same | same := same
      · cases same
      · simp only [equals, equals?, atomsEqual, numeric?] at same
        cases same

/-- What a position ends with without blaming a schema: if it failed, so did not its failure. -/
def Outcome.Blameless (outcome : Outcome) : Prop :=
  ∀ failure, Outcome.failure? outcome = some failure → failure.Blameless

namespace Outcome

theorem blameless_error {failure : Failure} (blameless : failure.Blameless) :
    Blameless (.error failure) := by
  rintro other ⟨⟩
  exact blameless

theorem blameless_value {value : Value} (blameless : value.Blameless) : Blameless (.ok value) :=
  fun _ found => blameless.failure found

theorem blameless_none {value : Value} (none_ : Failure.ofValue? value = none) :
    Blameless (.ok value) := by
  intro failure found
  rw [failure?, none_] at found
  cases found

theorem blameless_plain {value : Value} (plain : value.isPlain = true) : Blameless (.ok value) := by
  cases value with
  | error thrown => cases plain
  | undefined =>
      rintro failure ⟨⟩
      exact Failure.blameless_of_kind rfl fun _ same => by cases same
  | _ => exact blameless_none rfl

end Outcome

/-- An application that blames no schema, however it hands its errors over. -/
structure Account.Blameless (account : Account) (root : Value) : Prop where
  root : root.Blameless
  replies : ∀ asked value, account.called asked (.ok value) → value.Blameless
  failures : ∀ asked failure, account.called asked (.error failure) → failure.Blameless
  items : ∀ handle items fault, account.drained handle items fault → ∀ item ∈ items, item.Blameless
  faults : ∀ handle items failure, account.drained handle items (some failure) → failure.Blameless
  results : ∀ ticket value, account.came ticket (.ok value) → value.Blameless
  refusals : ∀ ticket failure, account.came ticket (.error failure) → failure.Blameless

theorem Except.mapM_ok {α β : Type} (next : α → Checked β) (items : List α)
    (each : ∀ item ∈ items, ∃ result, next item = .ok result) :
    ∃ results, items.mapM next = .ok results := by
  induction items with
  | nil => exact ⟨[], rfl⟩
  | cons first rest ih =>
      obtain ⟨head, made⟩ := each first List.mem_cons_self
      obtain ⟨tail, others⟩ := ih fun item inside => each item (List.mem_cons_of_mem _ inside)
      refine ⟨head :: tail, ?_⟩
      rw [List.mapM_cons, made, others]
      rfl

theorem Layout.inEffect_of_walk {layout : Layout} (overrides : layout.OverridesLeaves)
    (pending : List Candidate) (before after : TypeMap)
    (walks : layout.walk pending before = .ok after)
    (each : ∀ entry ∈ before, layout.leafInEffect entry.2 = entry.2) :
    ∀ entry ∈ after, layout.leafInEffect entry.2 = entry.2 := by
  match pending with
  | [] =>
      simp only [walk, Except.ok.injEq] at walks
      exact walks ▸ each
  | .other value :: rest =>
      rw [walk] at walks
      split at walks
      · exact inEffect_of_walk overrides rest before after walks each
      · cases walks
  | .type ref :: rest =>
      cases denotes : ref.innermost with
      | error fault =>
          rw [walk, denotes] at walks
          cases walks
      | ok inner =>
          obtain ⟨known, later⟩ | ⟨fresh, exists_, once, references, refers, later⟩ :=
            layout.walk_type ref rest before after inner denotes walks
          · exact inEffect_of_walk overrides rest before after later each
          · refine inEffect_of_walk overrides (references ++ rest) _ after later fun entry member => ?_
            obtain old | new := List.mem_append.1 member
            · exact each entry old
            · rw [List.mem_singleton.1 new]
              exact overrides.idempotent inner
termination_by (layout.missing before, pending.length)
decreasing_by
  · exact Prod.Lex.right _ (by simp)
  · exact Prod.Lex.right _ (by simp)
  · exact Prod.Lex.left _ _ (missing_append_lt _ exists_ fresh)

/-- The scalars that a request meets in every schema: names of types are texts, and conditions on
selections are truth values. -/
def Standard.everywhere : List Standard := [.string, .boolean]

/-- A schema that is accepted, and so is what stands for the scalars that a request meets in every
schema, even if the schema does not lead there. -/
structure Schema.Trusted (schema : Schema) : Prop where
  checked : schema.check = .ok ()
  strict : schema.assumeValid = false
  overrides : schema.OverridesLeaves
  names : schema.NamesValues
  everywhere : ∀ scalar ∈ Standard.everywhere,
    schema.checkDefinition (schema.definition (schema.leafInEffect (.standard scalar))) = .ok ()

namespace Schema

variable {schema : Schema}

theorem knows_of_named {name : String} {id : TypeId} (named : schema.named? name = .ok (some id)) :
    schema.Knows id := by
  unfold named? type? at named
  cases reached : schema.reached with
  | error fault =>
      rw [reached] at named
      cases named
  | ok found =>
      rw [reached] at named
      simp only [Except.map, Except.ok.injEq] at named
      obtain ⟨entry, member, same⟩ := Input.mem_of_lookup? found (.str name) id named
      exact ⟨found, entry.1, reached, same ▸ member⟩

theorem inEffect_of_knows (overrides : schema.OverridesLeaves) {id : TypeId}
    (knows : schema.Knows id) : schema.leafInEffect id = id := by
  obtain ⟨found, name, reached, member⟩ := knows
  have walks := reached
  rw [schema.reached_eq] at walks
  obtain ⟨origins, _, walks⟩ := Checked.ok_of_bind walks
  obtain ⟨walked, walks, ordered⟩ := Checked.ok_of_bind walks
  obtain ⟨_, _, same⟩ := Checked.ok_of_bind ordered
  cases same
  exact Layout.inEffect_of_walk overrides origins [] _ walks
    (fun entry inside => by cases inside) _ member

theorem contribution_ok {found : TypeMap} {entry : Value × TypeId}
    (settled : schema.Settled found entry) (name : Value) :
    ∃ candidates, schema.contribution name entry.2 = .ok candidates := by
  obtain ⟨_, references, refers, _⟩ := settled
  unfold contribution
  unfold TypeDef.references at refers
  cases body : (schema.definition entry.2).body with
  | union members resolveType =>
      rw [body] at refers
      simp only at refers ⊢
      split
      · exact ⟨references, refers⟩
      · exact ⟨[], rfl⟩
  | object fields interfaces isTypeOf =>
      rw [body] at refers
      obtain ⟨implemented, worked, _⟩ := Checked.ok_of_bind refers
      simp only [worked]
      exact ⟨_, rfl⟩
  | _ => exact ⟨[], rfl⟩

theorem possibleTypes_of_reached {found : TypeMap} (reached : schema.reached = .ok found)
    (abstract : TypeId) : ∃ candidates, schema.possibleTypes abstract = .ok candidates := by
  obtain ⟨lists, each⟩ := Except.mapM_ok
    (fun entry => schema.contribution (schema.definition abstract).name entry.2) found
    fun entry member => contribution_ok (settled_of_reached reached entry member) _
  refine ⟨lists.flatten, ?_⟩
  unfold possibleTypes
  rw [reached]
  exact congrArg (fun worked : Checked (List (List Candidate)) => worked >>= (pure ·.flatten)) each

namespace Trusted

variable (trusted : schema.Trusted)
include trusted

theorem reached : ∃ found, schema.reached = .ok found := by
  obtain ⟨found, checks⟩ := checks_of_check trusted.checked trusted.strict
  exact ⟨found, checks.reached⟩

theorem sound : Sound schema schema.Knows := sound_of_check trusted.checked trusted.strict

theorem definition_ok {id : TypeId} (knows : schema.Knows id) :
    schema.checkDefinition (schema.definition id) = .ok () :=
  checkDefinition_of_knows trusted.checked trusted.strict knows

theorem inEffect {id : TypeId} (knows : schema.Knows id) : schema.leafInEffect id = id :=
  inEffect_of_knows trusted.overrides knows

theorem named_ok (name : String) : ∃ found, schema.named? name = .ok found := by
  obtain ⟨found, reached⟩ := trusted.reached
  exact ⟨_, by rw [named?, type?, reached]; rfl⟩

theorem possibleTypes_ok (abstract : TypeId) :
    ∃ candidates, schema.possibleTypes abstract = .ok candidates := by
  obtain ⟨found, reached⟩ := trusted.reached
  exact possibleTypes_of_reached reached abstract

theorem possible_ok (abstract id : TypeId) :
    ∃ answer, schema.isPossible abstract id = .ok answer := by
  obtain ⟨candidates, possible⟩ := trusted.possibleTypes_ok abstract
  exact ⟨_, by rw [isPossible, possible]; rfl⟩

end Trusted

end Schema

theorem TypeKind.isComposite_eq_false_of_isLeaf {kind : TypeKind} (leaf : kind.isLeaf = true) :
    kind.isComposite = false := by
  cases kind <;> first | rfl | cases leaf

/-- A type that leads to a known one. -/
def TypeRef.LeadsTo (known : TypeId → Prop) (type : TypeRef) : Prop :=
  ∃ inner, type.innermost = .ok inner ∧ known inner

section

variable {calls : Call → Prop} {good : Failure → Prop} {known : TypeId → Prop}

theorem InputValue.Declares.readable {input : InputValue} (declares : input.Declares known) :
    input.Readable good (TypeRef.LeadsTo known) := by
  obtain ⟨type, inner, typed, leads, member⟩ := declares
  refine ⟨fun fault failed => ?_, fun other same => ?_⟩
  · rw [typed] at failed
    cases failed
  · cases typed.symm.trans same
    exact ⟨inner, leads, member⟩

theorem Inputs.readable_of_declares {inputs : Inputs}
    (declares : ∃ declared, inputs = .ok declared
      ∧ ∀ input ∈ declared.items, input.Declares known) :
    inputs.Readable good (TypeRef.LeadsTo known) := by
  obtain ⟨declared, rfl, each⟩ := declares
  refine ⟨fun fault failed => (by cases failed), fun table same entry inside => ?_⟩
  cases same
  exact (each entry.2 (List.mem_map_of_mem inside)).readable

theorem Schema.leafFits_of_check {schema : Schema} {leaf : TypeId}
    (isLeaf : (schema.kindOf leaf).isLeaf = true)
    (passes : schema.checkDefinition (schema.definition leaf) = .ok ()) :
    schema.LeafFits good leaf where
  values values body fault failed := by
    obtain ⟨_, _, passes⟩ := Checked.ok_of_bind passes
    rw [body, failed] at passes
    cases passes
  kind other := by
    rw [isLeaf] at other
    cases other

theorem Layout.reads_of_inputTypes {layout : Layout} (mild : Mild calls good)
    (inputs : InputTypes layout known)
    (input : ∀ id, known id → (layout.kindOf id).isInput = true)
    (leaf : ∀ id, known id → (layout.kindOf id).isLeaf = true →
      layout.LeafFits good (layout.leafInEffect id)) :
    layout.Reads calls good (TypeRef.LeadsTo known) where
  mild := mild
  nonNull _ leads := leads
  list _ leads := leads
  broken fault leads := by
    obtain ⟨inner, denotes, _⟩ := leads
    cases denotes
  leaf id leads := by
    obtain ⟨inner, ⟨⟩, member⟩ := leads
    exact leaf id member
  fields id fields leads body := by
    obtain ⟨inner, ⟨⟩, member⟩ := leads
    obtain isLeaf | ⟨table, declared, each⟩ := inputs.shape id member
    · rw [Layout.kindOf, TypeDef.kind, body] at isLeaf
      cases isLeaf
    · cases body.symm.trans declared
      refine Inputs.readable_of_declares ⟨table, rfl, fun item inside => ?_⟩
      obtain ⟨entry, member, rfl⟩ := List.mem_map.1 inside
      exact each entry member
  kind id leads other := by
    obtain ⟨inner, ⟨⟩, member⟩ := leads
    rw [input id member] at other
    cases other

end

namespace Schema

variable {schema : Schema}

theorem innermost_of_typeOfNode (node : TypeNode) (type : TypeRef)
    (written : schema.typeOfNode node = .ok (some type)) :
    ∃ inner, type.innermost = .ok inner ∧ schema.Knows inner := by
  induction node generalizing type with
  | named start name =>
      obtain ⟨found, named, same⟩ := Checked.ok_of_bind written
      cases found with
      | none => cases same
      | some id =>
          cases same
          exact ⟨id, rfl, knows_of_named named⟩
  | list start of ih =>
      obtain ⟨found, inner, same⟩ := Checked.ok_of_bind written
      cases found with
      | none => cases same
      | some item =>
          cases same
          exact ih item inner
  | nonNull of ih =>
      obtain ⟨found, inner, same⟩ := Checked.ok_of_bind written
      cases found with
      | none => cases same
      | some item =>
          cases same
          exact ih item inner

theorem declares_of_field? {parent : TypeId} {name : String} {field : Field}
    (looked : schema.field? parent name = .ok (some field)) :
    field = .typename ∨ ∃ fields, (schema.definition parent).fields? = some (.ok fields)
      ∧ field ∈ fields.items := by
  unfold Layout.field? at looked
  split at looked
  · cases looked
    exact .inl rfl
  · split at looked
    · next fields declared =>
        obtain ⟨table, rfl, found⟩ := Checked.ok_of_bind looked
        exact .inr ⟨table, declared, table.mem_items_of_get? _ field (Except.ok.inj found)⟩
    · cases looked

/-- A type whose values a response can hold: it is known if anything can be selected on it. -/
structure Completes (schema : Schema) (id : TypeId) : Prop where
  output : (schema.kindOf id).isOutput = true
  writes : schema.Writes (schema.leafInEffect id)
  known : (schema.kindOf id).isComposite = true → schema.Knows id

namespace Trusted

variable (trusted : schema.Trusted) {calls : Call → Prop} {good : Failure → Prop}
include trusted

theorem check_takesInput {id : TypeId} (takes : schema.TakesInput id) :
    schema.checkDefinition (schema.definition (schema.leafInEffect id)) = .ok () := by
  obtain ⟨_, knows | rfl | rfl⟩ := takes
  · exact trusted.definition_ok knows
  · exact trusted.everywhere .boolean (by decide)
  · exact trusted.everywhere .string (by decide)

theorem check_writes {leaf : TypeId} (writes : schema.Writes leaf) :
    schema.checkDefinition (schema.definition leaf) = .ok () := by
  obtain knows | rfl := writes
  · exact trusted.definition_ok knows
  · exact trusted.everywhere .string (by decide)

theorem text_of_enum {leaf : TypeId} (writes : schema.Writes leaf) {values : Table EnumValue}
    (body : (schema.definition leaf).body = .enum (.ok values)) :
    ∀ own ∈ values.items, ∃ text, own.name = .str text := by
  obtain ⟨_, _, passes⟩ := Checked.ok_of_bind (trusted.check_writes writes)
  rw [body] at passes
  obtain ⟨_, ⟨⟩, passes⟩ := Checked.ok_of_bind passes
  obtain ⟨_, _, passes⟩ := Checked.ok_of_bind passes
  intro own inside
  obtain ⟨entry, member, rfl⟩ := List.mem_map.1 inside
  have checked := Except.all_of_forM _ _ passes entry.1 (List.mem_map_of_mem member)
  obtain ⟨_, named, _⟩ := Checked.ok_of_bind checked
  obtain ⟨text, textual⟩ := text_of_checkNameOf named
  refine ⟨text, ?_⟩
  obtain same | same := trusted.names leaf values body entry member
  · rw [same, textual]
  · rw [textual] at same
    exact Value.eq_str_of_isKey same

theorem written_blameless {account : Account} {root : Value} (blameless : account.Blameless root)
    {leaf : TypeId} (writes : schema.Writes leaf) {value form : Value}
    (yields : (schema.serialize leaf value).Yields account (.ok form)) :
    Outcome.Blameless (.ok form) := by
  refine form_of_serialize (fun _ _ fits => Outcome.blameless_plain fits.isPlain)
    (fun id value form called => Outcome.blameless_value (blameless.replies _ form called))
    (fun values body own inside => ?_) yields
  obtain ⟨text, textual⟩ := trusted.text_of_enum writes body own inside
  rw [textual]
  exact Outcome.blameless_none rfl

theorem takesInput_of_knows {id : TypeId} (knows : schema.Knows id)
    (input : (schema.kindOf id).isInput = true) : schema.TakesInput id :=
  ⟨input, .inl (by rwa [trusted.inEffect knows])⟩

theorem reads (mild : Mild calls good) :
    schema.toLayout.Reads calls good (TypeRef.LeadsTo schema.TakesInput) :=
  Layout.reads_of_inputTypes mild (inputTypes_of_check trusted.checked trusted.strict)
    (fun _ takes => takes.1) fun _ takes leaf =>
      leafFits_of_check (trusted.overrides.leafInEffect leaf) (trusted.check_takesInput takes)

theorem arguments_readable {parent : TypeId} {name : String} {field : Field}
    (knows : schema.Knows parent) (looked : schema.field? parent name = .ok (some field)) :
    field.arguments.Readable good (TypeRef.LeadsTo schema.TakesInput) := by
  obtain rfl | ⟨fields, declared, inside⟩ := declares_of_field? looked
  · exact Inputs.readable_of_declares ⟨_, rfl, fun input inside => by cases inside⟩
  · exact Inputs.readable_of_declares
      (declares_of_takes trusted.checked trusted.strict (.field knows declared inside))

theorem output {parent : TypeId} {name : String} {field : Field} {type : TypeRef} {id : TypeId}
    (knows : schema.Knows parent) (looked : schema.field? parent name = .ok (some field))
    (typed : field.type = .ok type) (leads : type.innermost = .ok id) :
    (schema.kindOf id).isOutput = true := by
  obtain rfl | ⟨fields, declared, inside⟩ := declares_of_field? looked
  · cases typed
    cases leads
    rfl
  · obtain ⟨label, each⟩ := checkFieldsType_of_fields declared (trusted.definition_ok knows)
    obtain ⟨_, _, passes⟩ := Checked.ok_of_bind (each field inside)
    obtain ⟨other, same, passes⟩ := Checked.ok_of_bind passes
    cases typed.symm.trans same
    obtain ⟨_, tested, _⟩ := Checked.ok_of_bind passes
    have output := Layout.holds_of_checkType tested
    rw [Layout.isOutputType, Layout.innermostIs, leads] at output
    exact Except.ok.inj output

theorem child {parent : TypeId} {name : String} {field : Field} {type : TypeRef} {id : TypeId}
    (knows : schema.Knows parent) (looked : schema.field? parent name = .ok (some field))
    (typed : field.type = .ok type) (leads : type.innermost = .ok id)
    (composite : (schema.kindOf id).isComposite = true) : schema.Knows id := by
  cases id with
  | standard scalar => cases composite
  | declared index =>
      obtain knows | stands := trusted.sound.written parent name field type _ knows looked typed leads
      · exact knows
      · have leaf : (schema.kindOf (.declared index)).isLeaf = true :=
          (congrArg (fun id => (schema.kindOf id).isLeaf) stands).trans
            (trusted.overrides.leafInEffect rfl)
        rw [TypeKind.isComposite_eq_false_of_isLeaf leaf] at composite
        cases composite

/-- The type of a field leads to one that values can be completed for. -/
theorem completes {parent : TypeId} {name : String} {field : Field} {type : TypeRef}
    (knows : schema.Knows parent) (looked : schema.field? parent name = .ok (some field))
    (typed : field.type = .ok type) : type.LeadsTo schema.Completes := by
  obtain ⟨found, same, each⟩ := trusted.sound.declared parent name knows
  cases looked.symm.trans same
  obtain ⟨other, id, same, leads⟩ := each field rfl
  cases typed.symm.trans same
  exact ⟨id, leads, trusted.output knows looked typed leads,
    trusted.sound.written parent name field type id knows looked typed leads,
    trusted.child knows looked typed leads⟩

theorem selects (mild : Mild calls good) :
    schema.Selects calls good (TypeRef.LeadsTo schema.TakesInput) where
  toReads := trusted.reads mild
  named name fault failed := by
    obtain ⟨found, named⟩ := trusted.named_ok name
    rw [named] at failed
    cases failed
  possible abstract id fault failed := by
    obtain ⟨answer, possible⟩ := trusted.possible_ok abstract id
    rw [possible] at failed
    cases failed
  conditions directive specified :=
    Inputs.readable_of_declares (declares_specified specified)

/-- Requests are prepared on such a schema without any fault of it. -/
theorem prepares (mild : Mild calls good) (aside : ∀ asked : Call, asked.info? = none → calls asked)
    (input : ∀ fault, good (.input fault)) :
    schema.Prepares calls good (TypeRef.LeadsTo schema.TakesInput) schema.Knows where
  toSelects := trusted.selects mild
  values _ _ := aside _ rfl
  rules _ _ _ := aside _ rfl
  input := input
  taken node type written := by
    obtain ⟨inner, leads, knows⟩ := innermost_of_typeOfNode node type written
    rw [Layout.isInputType, Layout.innermostIs, leads]
    exact ⟨fun fault failed => (by cases failed), fun holds =>
      ⟨inner, leads, trusted.takesInput_of_knows knows (Except.ok.inj holds)⟩⟩
  root _ _ named _ := knows_of_root trusted.checked trusted.strict named
  condition _ _ named _ := knows_of_named named
  looked parent name knows fault failed := by
    obtain ⟨found, looked, _⟩ := trusted.sound.declared parent name knows
    rw [looked] at failed
    cases failed
  arguments _ _ _ knows looked := trusted.arguments_readable knows looked
  typed parent name field knows looked fault failed := by
    obtain ⟨found, same, each⟩ := trusted.sound.declared parent name knows
    cases looked.symm.trans same
    obtain ⟨type, id, typed, leads⟩ := each field rfl
    have child : Scope.childType (some field) = .ok (some id) := by
      rw [Scope.childType, typed]
      exact congrArg (fun inner : Checked TypeId => inner >>= (pure <| some ·)) leads
    rw [child] at failed
    cases failed
  child parent name field id knows looked child composite := by
    obtain ⟨type, typed, child⟩ := Checked.ok_of_bind child
    obtain ⟨inner, leads, same⟩ := Checked.ok_of_bind child
    cases same
    exact trusted.child knows looked typed leads composite

end Trusted

end Schema

end GraphQL
