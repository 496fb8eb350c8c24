import GraphQL.Proofs.Binding
import GraphQL.Request
import Mathlib

/-!
Preparing a request stays within what reading a document allows, as long as the schema is fit for
it. In particular nothing is called that is made for a field: the values of variables are coerced and
the cost is worked out by the functions of leaf types and the complexity rules alone.
-/

namespace GraphQL

open GraphQL.Action

variable {calls : Call → Prop} {good : Failure → Prop}

/-- Types that values can be read of and coerced to. -/
structure Layout.Coerces (layout : Layout) (calls : Call → Prop) (good : Failure → Prop)
    (types : TypeRef → Prop) : Prop extends layout.Reads calls good types where
  values : ∀ function value, calls (.parseValue function value)
  input : ∀ fault, good (.input fault)

namespace Input

variable {layout : Layout} {types : TypeRef → Prop}

theorem within_coerceLeaf (coerces : layout.Coerces calls good types) (leaf : TypeId)
    (fits : layout.LeafFits good (layout.leafInEffect leaf)) (value : Value)
    (path : List PathKey) : (coerceLeaf layout value leaf path).Within calls good := by
  refine within_andThen _ _ (Layout.within_parseValue coerces.mild coerces.values _ fits _) fun result well => ?_
  cases result with
  | ok parsed => exact within_pure _
  | error failure =>
      simp only
      split
      · exact within_fail _ (coerces.input _)
      · exact within_fail _ (well failure rfl)

/-- How a part of a value is coerced to the types that can be read. -/
def CoercesWithin (calls : Call → Prop) (good : Failure → Prop) (types : TypeRef → Prop)
    (coerce : Coercion) : Prop :=
  ∀ type path, types type → (coerce type path).Within calls good

/-- The parts of a value are coerced within the allowed. -/
structure ValuePartsWithin (calls : Call → Prop) (good : Failure → Prop) (types : TypeRef → Prop)
    (parts : ValueParts) : Prop where
  items : ∀ coerce, parts.items = some coerce → CoercesWithin calls good types coerce
  fields : ∀ coerce, parts.fields = some coerce → ∀ id (table : Table InputValue) path,
    (∀ entry ∈ table.entries, entry.2.Readable good types) →
      (coerce id table path).Within calls good

theorem within_coerceNamed (coerces : layout.Coerces calls good types) (value : Value)
    (parts : ValueParts) (each : ValuePartsWithin calls good types parts) (id : TypeId)
    (member : types (.named id)) (path : List PathKey) :
    (coerceNamed layout value parts id path).Within calls good := by
  unfold coerceNamed
  split
  · next fields body =>
      have readable := coerces.fields id fields member body
      split
      · next coerce found =>
          exact within_worked _ _ readable.worked fun table worked =>
            each.fields coerce found id table path (readable.each table worked)
      · exact within_fail _ (coerces.input _)
  · next rule body =>
      exact within_coerceLeaf coerces _ (coerces.leaf id member (Layout.leaf_of_scalar body)) _ _
  · next values body =>
      exact within_coerceLeaf coerces _ (coerces.leaf id member (Layout.leaf_of_enum body)) _ _
  · exact within_bind _ _ (Layout.within_text coerces.toReads _ member) fun _ =>
      within_fail _ (coerces.other member ‹_› ‹_› ‹_› _)

theorem within_coerceThrough (coerces : layout.Coerces calls good types) (value : Value)
    (parts : ValueParts) (each : ValuePartsWithin calls good types parts) :
    CoercesWithin calls good types (coerceThrough layout value parts) := by
  intro type path member
  induction type with
  | nonNull of ih =>
      unfold coerceThrough
      split
      · exact within_bind _ _ (Layout.within_text coerces.toReads _ member) fun _ =>
          within_fail _ (coerces.input _)
      · exact ih (coerces.nonNull of member)
  | list of ih =>
      have inner := coerces.list of member
      unfold coerceThrough
      split
      · exact within_pure _
      · split
        · next coerce found =>
            refine within_worked _ _ (Layout.failsWell_present coerces.toReads of inner)
              fun type here => ?_
            cases TypeRef.eq_of_present here
            exact each.items coerce found of path inner
        · exact within_bind _ _ (ih inner) fun _ => within_pure _
  | named id =>
      unfold coerceThrough
      split
      · exact within_pure _
      · exact within_coerceNamed coerces _ _ each _ member _
  | broken fault => exact within_fail _ (coerces.broken fault member)

theorem within_refuseUnknown (coerces : layout.Coerces calls good types) (type : String)
    (fields : Table InputValue) (path : List PathKey) (value : Value) (keys : List Value) :
    (refuseUnknown type fields path value keys).Within calls good := by
  induction keys with
  | nil => exact within_pure _
  | cons key rest ih =>
      unfold refuseUnknown
      split
      · exact ih
      · exact within_bind _ _ (within_fault coerces.mild _) fun _ =>
          within_fail _ (coerces.input _)

theorem mem_of_lookup? {β : Type} (entries : List (Value × β)) (key : Value) (found : β)
    (looked : Value.lookup? entries key = some found) : ∃ entry ∈ entries, entry.2 = found := by
  unfold Value.lookup? at looked
  rw [Option.map_eq_some_iff] at looked
  rcases looked with ⟨entry, located, same⟩
  exact ⟨entry, List.mem_of_find?_eq_some located, same⟩

theorem within_coerceDeclared (coerces : layout.Coerces calls good types) (value : Value)
    (given : List (Value × Coercion))
    (each : ∀ entry ∈ given, CoercesWithin calls good types entry.2) (path : List PathKey)
    (declared : List (Value × InputValue))
    (readable : ∀ entry ∈ declared, entry.2.Readable good types) (made : List (Value × Value)) :
    (coerceDeclared layout value given path declared made).Within calls good := by
  induction declared generalizing made with
  | nil => exact within_pure _
  | cons entry rest ih =>
      obtain ⟨name, field⟩ := entry
      have here := readable _ List.mem_cons_self
      have later := fun made => ih (fun entry inside => readable entry (List.mem_cons_of_mem _ inside))
        made
      unfold coerceDeclared
      split
      · next coerce looked =>
          rcases mem_of_lookup? given name coerce looked with ⟨entry, inside, same⟩
          refine within_worked _ _ here.worked fun type typed =>
            within_bind _ _ ?_ fun _ => later _
          rw [← same]
          exact each entry inside type _ (here.type type typed)
      · split
        · exact later _
        · refine within_worked _ _ here.worked fun type typed => ?_
          split
          · exact within_bind _ _ (Layout.within_text coerces.toReads _ (here.type type typed))
              fun _ => within_fail _ (coerces.input _)
          · exact later _

theorem within_coerceObject (coerces : layout.Coerces calls good types) (value : Value)
    (given : List (Value × Coercion))
    (each : ∀ entry ∈ given, CoercesWithin calls good types entry.2) (id : TypeId)
    (fields : Table InputValue) (readable : ∀ entry ∈ fields.entries, entry.2.Readable good types)
    (path : List PathKey) :
    (coerceObject layout value given id fields path).Within calls good :=
  within_bind _ _ (within_coerceDeclared coerces _ _ each _ _ readable _) fun _ =>
    within_bind _ _ (within_refuseUnknown coerces _ _ _ _ _) fun _ => within_pure _

theorem within_coerceEach (items : List Coercion)
    (each : ∀ coerce ∈ items, CoercesWithin calls good types coerce) (index : Int)
    (type : TypeRef) (member : types type) (path : List PathKey) :
    (coerceEach items index type path).Within calls good := by
  induction items generalizing index with
  | nil => exact within_pure _
  | cons coerce rest ih =>
      unfold coerceEach
      refine within_bind _ _ (each coerce List.mem_cons_self _ _ member) fun _ => ?_
      exact within_bind _ _ (ih (fun other inside => each other (List.mem_cons_of_mem _ inside)) _)
        fun _ => within_pure _

theorem valuePartsWithin_none : ValuePartsWithin calls good types {} :=
  ⟨fun _ found => (nomatch found), fun _ found => (nomatch found)⟩

theorem valuePartsWithin_listOf (items : List Coercion)
    (each : ∀ coerce ∈ items, CoercesWithin calls good types coerce) :
    ValuePartsWithin calls good types (listOf items) := by
  refine ⟨?_, fun _ found => by cases found⟩
  intro coerce found type path member
  cases found
  exact within_bind _ _ (within_coerceEach items each 0 type member path) fun _ => within_pure _

theorem within_coerceAtom (coerces : layout.Coerces calls good types) (value : Value) :
    CoercesWithin calls good types (coerceAtom layout value) :=
  within_coerceThrough coerces _ _ valuePartsWithin_none

mutual

theorem within_coerce (coerces : layout.Coerces calls good types) (value : Value) :
    CoercesWithin calls good types (coerce layout value) := by
  match value with
  | .list items =>
      exact within_coerceThrough coerces _ _
        (valuePartsWithin_listOf _ (within_itemCoercions coerces items))
  | .growing _ items =>
      exact within_coerceThrough coerces _ _
        (valuePartsWithin_listOf _ (within_itemCoercions coerces items))
  | .tuple items =>
      exact within_coerceThrough coerces _ _
        (valuePartsWithin_listOf _ (within_itemCoercions coerces items))
  | .set items identity =>
      exact within_coerceThrough coerces _ _
        (valuePartsWithin_listOf _ (within_itemCoercions coerces items))
  | .bytes content =>
      refine within_coerceThrough coerces _ _ (valuePartsWithin_listOf _ fun coerce member => ?_)
      rcases List.mem_map.1 member with ⟨byte, _, rfl⟩
      exact within_coerceAtom coerces _
  | .map entries =>
      refine within_coerceThrough coerces _ _ ⟨(fun _ found => by cases found), ?_⟩
      intro coerce found id table path readable
      cases found
      exact within_coerceObject coerces _ _ (within_entryCoercions coerces entries) _ _ readable _
  | .null | .undefined | .bool _ | .int _ | .float .. | .str _ | .decimal .. | .date _
  | .timestamp _ | .member .. | .error _ | .object _ | .deferred _ | .callable _ | .method ..
  | .iterator _ | .type .. => exact within_coerceAtom coerces _

theorem within_itemCoercions (coerces : layout.Coerces calls good types) (items : List Value) :
    ∀ coerce ∈ itemCoercions layout items, CoercesWithin calls good types coerce := by
  match items with
  | [] =>
      intro coerce member
      cases member
  | item :: rest =>
      intro coerce member
      rcases List.mem_cons.1 member with rfl | later
      · exact within_coerce coerces item
      · exact within_itemCoercions coerces rest coerce later

theorem within_entryCoercions (coerces : layout.Coerces calls good types)
    (entries : List (Value × Value)) :
    ∀ entry ∈ entryCoercions layout entries, CoercesWithin calls good types entry.2 := by
  match entries with
  | [] =>
      intro entry member
      cases member
  | (key, item) :: rest =>
      intro entry member
      rcases List.mem_cons.1 member with rfl | later
      · exact within_coerce coerces item
      · exact within_entryCoercions coerces rest entry later

end

end Input

/-- A schema on which requests can be prepared. The types that documents write for variables can be
read, and so can the arguments of the fields of known types; the types that fields lead to and that
names denote are known in their turn, as far as anything can be selected on them. -/
structure Schema.Prepares (schema : Schema) (calls : Call → Prop) (good : Failure → Prop)
    (types : TypeRef → Prop) (known : TypeId → Prop) : Prop
    extends schema.Selects calls good types where
  values : ∀ function value, calls (.parseValue function value)
  rules : ∀ function child given, calls (.complexity function child given)
  input : ∀ fault, good (.input fault)
  taken : ∀ node type, schema.typeOfNode node = .ok (some type) →
    Checked.FailsWell good (schema.isInputType type)
      ∧ (schema.isInputType type = .ok true → types type)
  root : ∀ kind id, (schema.root kind).bind Candidate.named? = some id →
    (schema.kindOf id).isComposite = true → known id
  condition : ∀ name id, schema.named? name = .ok (some id) →
    (schema.kindOf id).isComposite = true → known id
  looked : ∀ parent name, known parent → Checked.FailsWell good (schema.field? parent name)
  arguments : ∀ parent name field, known parent → schema.field? parent name = .ok (some field) →
    field.arguments.Readable good types
  typed : ∀ parent name field, known parent → schema.field? parent name = .ok (some field) →
    Checked.FailsWell good (Scope.childType (some field))
  child : ∀ parent name field id, known parent → schema.field? parent name = .ok (some field) →
    Scope.childType (some field) = .ok (some id) → (schema.kindOf id).isComposite = true → known id

section

variable {schema : Schema} {types : TypeRef → Prop} {known : TypeId → Prop}

theorem Schema.Prepares.coerces (prepares : schema.Prepares calls good types known) :
    schema.toLayout.Coerces calls good types :=
  ⟨prepares.toReads, prepares.values, prepares.input⟩

theorem Schema.Prepares.written (prepares : schema.Prepares calls good types known)
    (node : TypeNode) : Checked.FailsWell good (schema.typeOfNode node) := by
  have well : ∀ type : Option TypeRef, Checked.FailsWell good (.ok type) :=
    fun _ _ failed => by cases failed
  induction node with
  | named start name => exact Checked.failsWell_bind _ _ (prepares.named name) fun _ _ => well _
  | list start of ih => exact Checked.failsWell_bind _ _ ih fun _ _ => well _
  | nonNull of ih => exact Checked.failsWell_bind _ _ ih fun _ _ => well _

namespace Input

theorem within_bindSupplied (coerces : schema.toLayout.Coerces calls good types) (type : TypeRef)
    (member : types type) (raw : Value) : (bindSupplied schema type raw).Within calls good := by
  unfold bindSupplied
  split
  · exact within_bind _ _ (Layout.within_text coerces.toReads _ member) fun _ => within_pure _
  · refine within_andThen _ _ (within_coerce coerces raw type [] member) fun result well => ?_
    split
    · exact within_pure _
    · exact within_pure _
    · exact within_fail _ (well _ rfl)

theorem within_bindVariable (prepares : schema.Prepares calls good types known)
    (raw : List (Value × Value)) (node : VariableNode) :
    (bindVariable schema raw node).Within calls good := by
  unfold bindVariable
  refine within_worked _ _ (prepares.written node.type) fun found written => ?_
  split
  · exact within_pure _
  · next type =>
      have taken := prepares.taken node.type type written
      refine within_worked _ _ taken.1 fun input isInput => ?_
      split
      · exact within_pure _
      · next allowed =>
          have member : types type := by
            refine taken.2 ?_
            rw [isInput]
            simpa using allowed
          split
          · exact within_bindSupplied prepares.coerces _ member _
          · split
            · exact within_bind _ _ (within_readLiteral prepares.toReads _ _ member) fun _ =>
                within_pure _
            · split
              · exact within_bind _ _ (Layout.within_text prepares.toReads _ member) fun _ =>
                  within_pure _
              · exact within_pure _

theorem within_bindVariables (prepares : schema.Prepares calls good types known)
    (raw : List (Value × Value)) (nodes : List VariableNode) (made : Variables)
    (errors : List ResponseError) :
    (bindVariables schema raw nodes made errors).Within calls good := by
  induction nodes generalizing made errors with
  | nil => cases errors <;> exact within_pure _
  | cons node rest ih =>
      unfold bindVariables
      refine within_bind _ _ (within_bindVariable prepares _ _) fun binding => ?_
      cases binding with
      | bound value => exact ih _ _
      | omitted => exact ih _ _
      | refused problem => exact ih _ _

end Input

end

section

variable {scope : Scope} {types : TypeRef → Prop} {known : TypeId → Prop}

namespace Scope

theorem within_fieldCost (reads : scope.schema.toLayout.Reads calls good types)
    (rules : ∀ function child given, calls (.complexity function child given))
    (field : Option Field)
    (readable : ∀ declared, field = some declared → declared.arguments.Readable good types)
    (start : Nat) (given : List ArgumentNode) (child : Value) :
    (scope.fieldCost field start given child).Within calls good := by
  unfold fieldCost
  split
  · exact within_fault reads.mild _
  · next declared =>
      split
      · exact within_fault reads.mild _
      · exact within_bind _ _ (Input.within_arguments reads _ _ _ (readable declared rfl)) fun _ =>
          Slot.within_ask reads.mild _ _ fun _ => rules _ _ _

end Scope

namespace Selection

/-- A type that fields may be selected on is known. -/
def KnownParent (schema : Schema) (known : TypeId → Prop) (parent : Option TypeId) : Prop :=
  ∀ id, parent = some id → (schema.kindOf id).isComposite = true → known id

/-- The field that a selection names is looked up on a known type, or there is none. -/
theorem fieldOn?_cases (scope : Scope) (knownParent : KnownParent scope.schema known parent)
    (name : String) :
    scope.fieldOn? parent name = .ok none
      ∨ ∃ id, known id ∧ scope.fieldOn? parent name = scope.schema.field? id name := by
  unfold Scope.fieldOn?
  split
  · next id found =>
      obtain ⟨same, composite⟩ := Option.filter_eq_some_iff.1 found
      exact .inr ⟨id, knownParent id same composite, rfl⟩
  · exact .inl rfl

mutual

theorem within_addCost (prepares : scope.schema.Prepares calls good types known)
    (spreadCost : String → Option (Action Value))
    (each : ∀ name cost, spreadCost name = some cost → cost.Within calls good)
    (parent : Option TypeId) (knownParent : KnownParent scope.schema known parent)
    (selection : Selection) (total : Value) :
    (addCost scope spreadCost parent selection total).Within calls good := by
  match selection with
  | field start alias_ name arguments directives selections =>
      simp only [addCost]
      refine within_bind _ _ (Scope.within_isIncluded prepares.toSelects _) fun included => ?_
      split
      · have located := fieldOn?_cases scope knownParent name
        refine within_worked _ _ (fun fault failed => ?_) fun definition found => ?_
        · obtain none_ | ⟨id, knownId, same⟩ := located
          · rw [none_] at failed
            cases failed
          · exact prepares.looked id name knownId fault (same ▸ failed)
        · have looked : ∀ declared, definition = some declared →
              ∃ id, known id ∧ scope.schema.field? id name = .ok (some declared) := by
            rintro declared rfl
            obtain none_ | ⟨id, knownId, same⟩ := located
            · rw [none_] at found
              cases found
            · exact ⟨id, knownId, same ▸ found⟩
          refine within_worked _ _ (fun fault failed => ?_) fun childType child => ?_
          · cases definition with
            | none => cases failed
            | some declared =>
                obtain ⟨id, knownId, looked⟩ := looked declared rfl
                exact prepares.typed id name declared knownId looked fault failed
          · have knownChild : KnownParent scope.schema known childType := by
              rintro id rfl composite
              cases definition with
              | none => cases child
              | some declared =>
                  obtain ⟨other, knownId, looked⟩ := looked declared rfl
                  exact prepares.child other name declared id knownId looked child composite
            refine within_bind _ _
              (within_costOfAll prepares spreadCost each childType knownChild selections _)
              fun cost => ?_
            refine within_bind _ _ (Scope.within_fieldCost prepares.toReads prepares.rules _
              (fun declared same => ?_) _ _ _) fun _ =>
                within_fault prepares.mild _
            obtain ⟨id, knownId, looked⟩ := looked declared same
            exact prepares.arguments id name declared knownId looked
      · exact within_pure _
  | inlineFragment _ condition directives selections =>
      simp only [addCost]
      refine within_bind _ _ (Scope.within_isIncluded prepares.toSelects _) fun included => ?_
      split
      · have conditioned : Checked.FailsWell good (scope.conditionType parent condition)
            ∧ ∀ type, scope.conditionType parent condition = .ok type →
              KnownParent scope.schema known type := by
          cases condition with
          | none =>
              refine ⟨(fun _ failed => by cases failed), fun type same => ?_⟩
              cases same
              exact knownParent
          | some name =>
              refine ⟨prepares.named name, ?_⟩
              rintro type named id rfl composite
              exact prepares.condition name id named composite
        refine within_worked _ _ conditioned.1 fun type found => ?_
        exact within_bind _ _ (within_costOfAll prepares spreadCost each type
          (conditioned.2 type found) selections _) fun _ =>
            within_fault prepares.mild _
      · exact within_pure _
  | spread _ name directives =>
      simp only [addCost]
      refine within_bind _ _ (Scope.within_isIncluded prepares.toSelects _) fun included => ?_
      split
      · split
        · next cost found =>
            exact within_bind _ _ (each name cost found) fun _ =>
              within_fault prepares.mild _
        · exact within_pure _
      · exact within_pure _

theorem within_costOfAll (prepares : scope.schema.Prepares calls good types known)
    (spreadCost : String → Option (Action Value))
    (each : ∀ name cost, spreadCost name = some cost → cost.Within calls good)
    (parent : Option TypeId) (knownParent : KnownParent scope.schema known parent)
    (selections : List Selection) (total : Value) :
    (costOfAll scope spreadCost parent selections total).Within calls good := by
  match selections with
  | [] =>
      simp only [costOfAll]
      exact within_pure _
  | selection :: rest =>
      simp only [costOfAll]
      exact within_bind _ _
        (within_addCost prepares spreadCost each parent knownParent selection total) fun made =>
          within_costOfAll prepares spreadCost each parent knownParent rest made

end

theorem within_costWithin (prepares : scope.schema.Prepares calls good types known) (levels : Nat)
    (within : List String) (parent : Option TypeId)
    (knownParent : KnownParent scope.schema known parent) (selections : List Selection) :
    (costWithin scope levels within parent selections).Within calls good := by
  induction levels generalizing within parent selections with
  | zero =>
      exact within_costOfAll prepares _ (fun _ _ found => by cases found) parent knownParent
        selections _
  | succ levels ih =>
      refine within_costOfAll prepares _ (fun name cost found => ?_) parent knownParent selections _
      simp only [Option.bind_eq_bind, Option.bind_eq_some_iff] at found
      rcases found with ⟨fragment, _, _, _, made⟩
      cases made
      refine within_worked _ _ (prepares.named _) fun type named => ih _ _ ?_ _
      rintro id rfl composite
      exact prepares.condition _ id named composite

end Selection

namespace Cost

theorem within_complexity (prepares : scope.schema.Prepares calls good types known)
    (operation : Operation) : (complexity scope operation).Within calls good :=
  Selection.within_costWithin prepares _ _ _ (prepares.root operation.kind) _

theorem within_checkComplexity (prepares : scope.schema.Prepares calls good types known)
    (operation : Operation) (limits : Limits) :
    (checkComplexity scope operation limits).Within calls good := by
  unfold checkComplexity
  split
  · refine within_andThen _ _ (within_complexity prepares operation) fun result well => ?_
    split
    · refine within_bind _ _ (within_fault prepares.mild _) fun exceeded => ?_
      split <;> exact within_pure _
    · exact within_pure _
    · exact within_fail _ (well _ rfl)
  · exact within_pure _

theorem within_check (prepares : scope.schema.Prepares calls good types known)
    (operation : Operation) (limits : Limits) :
    (check scope operation limits).Within calls good :=
  within_bind _ _ (within_checkComplexity prepares operation limits) fun _ => within_pure _

end Cost

end

theorem Request.within_prepare {schema : Schema} {types : TypeRef → Prop} {known : TypeId → Prop}
    (prepares : schema.Prepares calls good types known) (request : Request) (document : Document)
    (operation : Operation) : (request.prepare schema document operation).Within calls good := by
  unfold prepare
  refine within_bind _ _ (Input.within_bindVariables prepares _ _ _ _) fun coerced => ?_
  split
  · exact within_pure _
  · refine within_bind _ _ (Cost.within_check prepares _ _) fun errors => ?_
    split <;> exact within_pure _

/-- The calls that are made for no field. -/
abbrev Aside (asked : Call) : Prop := asked.info? = none

/-- The actions that make only such calls. -/
def Action.StaysAside {α : Type} (action : Action α) : Prop :=
  action.Within Aside fun _ => True

theorem lenient_aside : Lenient Aside fun _ => True where
  literals _ _ _ := rfl
  response _ _ _ := trivial
  schema _ := trivial
  value _ := trivial
  leaf _ := trivial
  assertion _ := trivial

theorem Request.aside_prepare (request : Request) (schema : Schema) (document : Document)
    (operation : Operation) : (request.prepare schema document operation).StaysAside := by
  have prepares : schema.Prepares Aside (fun _ => True) (fun _ => True) fun _ => True :=
    { lenient_aside.selects schema with
      values := fun _ _ => rfl
      rules := fun _ _ _ => rfl
      input := fun _ => trivial
      taken := fun _ _ _ => ⟨fun _ _ => trivial, fun _ => trivial⟩
      root := fun _ _ _ _ => trivial
      condition := fun _ _ _ _ => trivial
      looked := fun _ _ _ _ _ => trivial
      arguments := fun _ _ _ _ _ => lenient_aside.readable _
      typed := fun _ _ _ _ _ _ _ => trivial
      child := fun _ _ _ _ _ _ _ _ => trivial }
  exact within_prepare prepares request document operation

end GraphQL
