import GraphQL.Proofs.Reading

/-!
Binding arguments and collecting fields stay within what reading a document allows, as long as the
types that are read lead to no fault of the schema that is not allowed.
-/

namespace GraphQL

open GraphQL.Action

variable {calls : Call → Prop} {good : Failure → Prop}

theorem Slot.within_ask (mild : Mild calls good) (slot : Slot) (asked : Nat → Call)
    (allowed : ∀ id, calls (asked id)) : (slot.ask asked).Within calls good := by
  cases slot with
  | function id => exact Action.within_ask _ (allowed id)
  | other value => exact within_fail _ (mild.value _)
  | absent => exact within_fail _ (mild.value _)

namespace EnumValue

theorem failsWell_parseLiteral (mild : Mild calls good) (values : Table EnumValue)
    (literal : Literal) : Except.FailsWell good (parseLiteral values literal) := by
  unfold parseLiteral
  split
  · split
    · exact Leaf.failsWell_ok _
    · exact Leaf.failsWell_refuse mild _ _
  · exact Leaf.failsWell_refuse mild _ _

theorem failsWell_parseValue (mild : Mild calls good) (values : Table EnumValue) (value : Value) :
    Except.FailsWell good (parseValue values value) := by
  unfold parseValue
  split
  · exact Leaf.failsWell_ok _
  · exact Leaf.failsWell_refuse mild _ _

theorem failsWell_serialize (mild : Mild calls good) (values : Table EnumValue)
    (value : Value) : Except.FailsWell good (serialize values value) := by
  refine Leaf.failsWell_bind _ _ (Leaf.failsWell_liftFault mild _) fun store => ?_
  split
  · intro failure failed
    cases failed
    exact mild.value _
  · split
    · exact Leaf.failsWell_ok _
    · exact Leaf.failsWell_refuse mild _ _

end EnumValue

/-- A leaf type that can be read and written: it is a leaf, and its values are worked out. Where it
is not so, the failure that says so is allowed. -/
structure Layout.LeafFits (layout : Layout) (good : Failure → Prop) (leaf : TypeId) : Prop where
  values : ∀ values, (layout.definition leaf).body = .enum values → Checked.FailsWell good values
  kind : (layout.kindOf leaf).isLeaf = false → ∀ violated, good (.assertion violated)

namespace Layout

variable {layout : Layout}

theorem LeafFits.other {leaf : TypeId} (fits : layout.LeafFits good leaf)
    (standard : ∀ scalar, (layout.definition leaf).body ≠ .scalar (.standard scalar))
    (custom : ∀ serialize parseValue parseLiteral,
      (layout.definition leaf).body ≠ .scalar (.custom serialize parseValue parseLiteral))
    (enum : ∀ values, (layout.definition leaf).body ≠ .enum values) (violated : Assertion) :
    good (.assertion violated) := by
  refine fits.kind ?_ violated
  unfold Layout.kindOf TypeDef.kind
  cases body : (layout.definition leaf).body with
  | scalar rule =>
      cases rule with
      | standard scalar => exact absurd body (standard scalar)
      | custom serialize parseValue parseLiteral => exact absurd body (custom _ _ _)
  | enum values => exact absurd body (enum values)
  | _ => rfl

theorem within_parseLiteral (mild : Mild calls good) (leaf : TypeId)
    (fits : layout.LeafFits good leaf) (literal : Literal) (vars : Variables) :
    (layout.parseLiteral leaf literal vars).Within calls good := by
  unfold parseLiteral
  split
  · exact Leaf.failsWell_parseLiteral mild _ _
  · exact within_fault mild _
  · exact Slot.within_ask mild _ _ fun _ => mild.literals _ _ _
  · next values body =>
      exact within_bind _ _ (within_checked _ (fits.values values body)) fun _ =>
        within_lift _ (EnumValue.failsWell_parseLiteral mild _ _)
  · exact within_fail _ (fits.other ‹_› ‹_› ‹_› _)

theorem within_parseValue (mild : Mild calls good)
    (values : ∀ function value, calls (.parseValue function value)) (leaf : TypeId)
    (fits : layout.LeafFits good leaf) (value : Value) :
    (layout.parseValue leaf value).Within calls good := by
  unfold parseValue
  split
  · exact Leaf.failsWell_parseValue mild _ _
  · exact within_pure _
  · exact Slot.within_ask mild _ _ fun _ => values _ _
  · next values body =>
      exact within_bind _ _ (within_checked _ (fits.values values body)) fun _ =>
        within_lift _ (EnumValue.failsWell_parseValue mild _ _)
  · exact within_fail _ (fits.other ‹_› ‹_› ‹_› _)

theorem within_serialize (mild : Mild calls good)
    (values : ∀ function value, calls (.serialize function value)) (leaf : TypeId)
    (fits : layout.LeafFits good leaf) (value : Value) :
    (layout.serialize leaf value).Within calls good := by
  unfold serialize
  split
  · exact Leaf.failsWell_serialize mild _ _
  · exact Slot.within_ask mild _ _ fun _ => values _ _
  · next values body =>
      exact within_bind _ _ (within_checked _ (fits.values values body)) fun _ =>
        within_lift _ (EnumValue.failsWell_serialize mild _ _)
  · exact within_fail _ (fits.other ‹_› ‹_› ‹_› _)

end Layout

/-- An input of a type that can be read. -/
structure InputValue.Readable (good : Failure → Prop) (types : TypeRef → Prop)
    (input : InputValue) : Prop where
  worked : Checked.FailsWell good input.type
  type : ∀ type, input.type = .ok type → types type

/-- Inputs of types that can be read. -/
structure Inputs.Readable (good : Failure → Prop) (types : TypeRef → Prop) (inputs : Inputs) :
    Prop where
  worked : Checked.FailsWell good inputs
  each : ∀ table, inputs = .ok table → ∀ entry ∈ table.entries,
    InputValue.Readable good types entry.2

/-- Types that values can be read of: whatever they lead to is worked out and is an input type.
Where it is not so, the failure that says so is allowed. -/
structure Layout.Reads (layout : Layout) (calls : Call → Prop) (good : Failure → Prop)
    (types : TypeRef → Prop) : Prop where
  mild : Mild calls good
  nonNull : ∀ of, types (.nonNull of) → types of
  list : ∀ of, types (.list of) → types of
  broken : ∀ fault, types (.broken fault) → good (.schema fault)
  leaf : ∀ id, types (.named id) → (layout.kindOf id).isLeaf = true →
    layout.LeafFits good (layout.leafInEffect id)
  fields : ∀ id fields, types (.named id) → (layout.definition id).body = .input fields →
    Inputs.Readable good types fields
  kind : ∀ id, types (.named id) → (layout.kindOf id).isInput = false →
    ∀ violated, good (.assertion violated)

namespace Layout

variable {layout : Layout} {types : TypeRef → Prop}

theorem Reads.other (reads : layout.Reads calls good types) {id : TypeId} (member : types (.named id))
    (input : ∀ fields, (layout.definition id).body ≠ .input fields)
    (scalar : ∀ rule, (layout.definition id).body ≠ .scalar rule)
    (enum : ∀ values, (layout.definition id).body ≠ .enum values) (violated : Assertion) :
    good (.assertion violated) := by
  refine reads.kind id member ?_ violated
  unfold Layout.kindOf TypeDef.kind
  cases body : (layout.definition id).body with
  | scalar rule => exact absurd body (scalar rule)
  | enum values => exact absurd body (enum values)
  | input fields => exact absurd body (input fields)
  | _ => rfl

theorem failsWell_text (reads : layout.Reads calls good types) (ref : TypeRef)
    (member : types ref) : Except.FailsWell good (layout.text ref) := by
  unfold text
  induction ref with
  | named id =>
      unfold Catalog.text
      split
      · exact Leaf.failsWell_ok _
      · intro failure failed
        cases failed
        exact reads.mild.value _
  | list of ih =>
      intro failure failed
      rw [Catalog.text] at failed
      cases inner : layout.catalog.text of with
      | ok found =>
          rw [inner] at failed
          cases failed
      | error other =>
          rw [inner] at failed
          cases failed
          exact ih (reads.list of member) _ inner
  | nonNull of ih =>
      intro failure failed
      rw [Catalog.text] at failed
      cases inner : layout.catalog.text of with
      | ok found =>
          rw [inner] at failed
          cases failed
      | error other =>
          rw [inner] at failed
          cases failed
          exact ih (reads.nonNull of member) _ inner
  | broken fault =>
      intro failure failed
      cases failed
      exact reads.broken fault member

theorem within_text (reads : layout.Reads calls good types) (ref : TypeRef) (member : types ref) :
    (liftM (layout.text ref) : Action String).Within calls good :=
  within_lift _ (failsWell_text reads ref member)

theorem failsWell_present (reads : layout.Reads calls good types) (type : TypeRef)
    (member : types type) : Checked.FailsWell good type.present := by
  intro fault failed
  cases type with
  | broken found =>
      cases failed
      exact reads.broken fault member
  | _ => cases failed

theorem leaf_of_scalar {id : TypeId} {rule : ScalarRule}
    (body : (layout.definition id).body = .scalar rule) : (layout.kindOf id).isLeaf = true := by
  rw [Layout.kindOf, TypeDef.kind, body]
  rfl

theorem leaf_of_enum {id : TypeId} {values : Checked (Table EnumValue)}
    (body : (layout.definition id).body = .enum values) : (layout.kindOf id).isLeaf = true := by
  rw [Layout.kindOf, TypeDef.kind, body]
  rfl

end Layout

namespace Input

variable {layout : Layout} {types : TypeRef → Prop} {vars : Variables}

theorem within_readLeaf (mild : Mild calls good) (leaf : TypeId)
    (fits : layout.LeafFits good (layout.leafInEffect leaf)) (literal : Literal) :
    (readLeaf layout vars literal leaf).Within calls good := by
  refine within_andThen _ _ (Layout.within_parseLiteral mild _ fits _ _) ?_
  intro result well
  cases result with
  | ok value => exact within_pure value
  | error failure =>
      simp only
      split
      · exact within_pure _
      · exact within_fail _ (well failure rfl)

/-- The parts of a literal are read within the allowed. -/
structure PartsWithin (calls : Call → Prop) (good : Failure → Prop) (types : TypeRef → Prop)
    (parts : Parts) : Prop where
  items : ∀ read, parts.items = some read → ∀ type, types type → (read type).Within calls good
  fields : ∀ read, parts.fields = some read → ∀ id (table : Table InputValue),
    (∀ entry ∈ table.entries, entry.2.Readable good types) → (read id table).Within calls good

theorem partsWithin_none : PartsWithin calls good types {} :=
  ⟨fun _ found => (nomatch found), fun _ found => (nomatch found)⟩

theorem within_readNamed (reads : layout.Reads calls good types) (literal : Literal) (parts : Parts)
    (each : PartsWithin calls good types parts) (id : TypeId) (member : types (.named id)) :
    (readNamed layout vars literal parts id).Within calls good := by
  unfold readNamed
  split
  · next fields body =>
      have readable := reads.fields id fields member body
      split
      · next read found =>
          exact within_worked _ _ readable.worked fun table worked =>
            each.fields read found id table (readable.each table worked)
      · exact within_pure _
  · next rule body =>
      exact within_readLeaf reads.mild _ (reads.leaf id member (Layout.leaf_of_scalar body)) _
  · next values body =>
      exact within_readLeaf reads.mild _ (reads.leaf id member (Layout.leaf_of_enum body)) _
  · exact within_bind _ _ (Layout.within_text reads _ member) fun _ =>
      within_fail _ (reads.other member ‹_› ‹_› ‹_› _)

theorem within_readThrough (reads : layout.Reads calls good types) (literal : Literal)
    (parts : Parts) (each : PartsWithin calls good types parts) (type : TypeRef)
    (member : types type) : (readThrough layout vars literal parts type).Within calls good := by
  induction type with
  | nonNull of ih =>
      unfold readThrough
      split
      · exact within_pure _
      · exact ih (reads.nonNull of member)
  | list of ih =>
      unfold readThrough
      split
      · exact within_pure _
      · split
        · next read found =>
            refine within_worked _ _ (Layout.failsWell_present reads of (reads.list of member))
              fun type here => ?_
            cases TypeRef.eq_of_present here
            exact each.items read found of (reads.list of member)
        · refine within_bind _ _ (ih (reads.list of member)) fun single => ?_
          split
          · exact within_pure _
          · exact within_pure _
  | named id =>
      unfold readThrough
      split
      · exact within_pure _
      · exact within_readNamed reads _ _ each _ member
  | broken fault => exact within_fail _ (reads.broken fault member)

theorem within_readReference (name : String) (type : TypeRef) :
    (readReference vars name type).Within calls good := by
  unfold readReference
  split
  · exact within_pure _
  · split
    · exact within_pure _
    · exact within_pure _

theorem within_readDeclared (given : List (String × FieldReader))
    (each : ∀ field ∈ given, ∀ type, types type → (field.2.read type).Within calls good)
    (declared : List (Value × InputValue))
    (readable : ∀ entry ∈ declared, entry.2.Readable good types) (made : List (Value × Value)) :
    (readDeclared given declared made).Within calls good := by
  induction declared generalizing made with
  | nil => exact within_pure _
  | cons entry rest ih =>
      obtain ⟨name, field⟩ := entry
      have here := readable _ List.mem_cons_self
      have later := fun made => ih (fun entry inside => readable entry (List.mem_cons_of_mem _ inside))
        made
      unfold readDeclared
      split
      · next reader found =>
          refine within_worked _ _ here.worked fun type typed => within_bind _ _ ?_ fun value => ?_
          · rw [Option.filter_eq_some_iff, Option.bind_eq_some_iff] at found
            rcases found with ⟨⟨key, _, looked⟩, _⟩
            rcases List.lookup_eq_some_iff.1 looked with ⟨front, back, split, _⟩
            exact each (key, reader) (by rw [split]; simp) type (here.type type typed)
          · split
            · exact within_pure _
            · exact later _
      · split
        · exact later _
        · refine within_worked _ _ here.worked fun type _ => ?_
          split
          · exact within_pure _
          · exact later _

theorem within_readObject (given : List (String × FieldReader))
    (each : ∀ field ∈ given, ∀ type, types type → (field.2.read type).Within calls good)
    (fields : Table InputValue) (readable : ∀ entry ∈ fields.entries, entry.2.Readable good types) :
    (readObject given fields).Within calls good := by
  unfold readObject
  split
  · exact within_pure _
  · exact within_readDeclared _ (fun field member => each field (List.mem_reverse.1 member)) _
      readable _

mutual

theorem within_readLiteral (reads : layout.Reads calls good types) (literal : Literal)
    (type : TypeRef) (member : types type) :
    (readLiteral layout vars literal type).Within calls good := by
  match literal with
  | .reference _ name => exact within_readReference name type
  | .list start items =>
      refine within_readThrough reads _ _ ⟨?_, fun _ found => by cases found⟩ type member
      intro read found of inside
      cases found
      exact within_readItems reads items of inside []
  | .object start fields =>
      refine within_readThrough reads _ _ ⟨(fun _ found => by cases found), ?_⟩ type member
      intro read found id table readable
      cases found
      exact within_readObject _ (within_fieldReaders reads fields) table readable
  | .int .. | .float .. | .string .. | .boolean .. | .null _ | .enum .. =>
      exact within_readThrough reads _ _ partsWithin_none type member

theorem within_readItems (reads : layout.Reads calls good types) (items : List Literal)
    (type : TypeRef) (member : types type) (made : List Value) :
    (readItems layout vars items type made).Within calls good := by
  match items with
  | [] => exact within_pure _
  | item :: rest =>
      unfold readItems
      split
      · split
        · exact within_pure _
        · exact within_readItems reads rest type member _
      · refine within_bind _ _ (within_readLiteral reads item type member) fun value => ?_
        split
        · exact within_pure _
        · exact within_readItems reads rest type member _

theorem within_fieldReaders (reads : layout.Reads calls good types)
    (fields : List (String × Literal)) :
    ∀ field ∈ fieldReaders layout vars fields, ∀ type, types type →
      (field.2.read type).Within calls good := by
  match fields with
  | [] =>
      intro field inside
      cases inside
  | (name, literal) :: rest =>
      intro field inside type member
      rcases List.mem_cons.1 inside with rfl | later
      · exact within_readLiteral reads literal type member
      · exact within_fieldReaders reads rest field later type member

end

theorem within_refuseArgument {α : Type} (mild : Mild calls good) (node : Nat) (name : Value)
    (problem : ArgumentProblem) : (refuseArgument node name problem : Action α).Within calls good :=
  within_fail _ (mild.response _ rfl rfl)

theorem within_omitted (argument : InputValue) (readable : argument.Readable good types)
    (refuse : TypeRef → Action (Option Value))
    (each : ∀ type, types type → (refuse type).Within calls good) :
    (omitted argument refuse).Within calls good := by
  unfold omitted
  split
  · exact within_pure _
  · refine within_worked _ _ readable.worked fun type typed => ?_
    split
    · exact each type (readable.type type typed)
    · exact within_pure _

theorem within_readArgument (reads : layout.Reads calls good types) (name : Value) (type : TypeRef)
    (member : types type) (literal : Literal) :
    (readArgument layout vars name type literal).Within calls good := by
  unfold readArgument
  split
  · exact within_bind _ _ (Layout.within_text reads _ member) fun _ =>
      within_refuseArgument reads.mild _ _ _
  · refine within_bind _ _ (within_readLiteral reads _ _ member) fun value => ?_
    split
    · exact within_refuseArgument reads.mild _ _ _
    · exact within_pure _

theorem within_bindArgument (reads : layout.Reads calls good types) (node : Nat)
    (given : List ArgumentNode) (name : Value) (argument : InputValue)
    (readable : argument.Readable good types) :
    (bindArgument layout vars node given name argument).Within calls good := by
  have refused : ∀ (place : Nat) (problem : String → ArgumentProblem) (type : TypeRef),
      types type → (do refuseArgument place name (problem (← layout.text type)) :
        Action (Option Value)).Within calls good := fun _ _ _ member =>
    within_bind _ _ (Layout.within_text reads _ member) fun _ =>
      within_refuseArgument reads.mild _ _ _
  unfold bindArgument
  refine within_worked _ _ readable.worked fun type typed => ?_
  split
  · exact within_omitted _ readable _ (refused _ _)
  · split
    · exact within_omitted _ readable _ (refused _ _)
    · exact within_readArgument reads _ _ (readable.type type typed) _

theorem within_bindArguments (reads : layout.Reads calls good types) (node : Nat)
    (given : List ArgumentNode) (declared : List (Value × InputValue))
    (readable : ∀ entry ∈ declared, entry.2.Readable good types) :
    (bindArguments layout vars node given declared).Within calls good := by
  induction declared with
  | nil => exact within_pure _
  | cons entry rest ih =>
      obtain ⟨name, argument⟩ := entry
      have later := ih fun entry inside => readable entry (List.mem_cons_of_mem _ inside)
      unfold bindArguments
      refine within_bind _ _ (within_bindArgument reads _ _ _ _ (readable _ List.mem_cons_self))
        fun bound => ?_
      cases bound with
      | some value => exact within_bind _ _ later fun _ => within_pure _
      | none => exact later

theorem within_arguments (reads : layout.Reads calls good types) (node : Nat)
    (given : List ArgumentNode) (declared : Inputs) (readable : declared.Readable good types) :
    (arguments layout vars node given declared).Within calls good := by
  unfold arguments
  exact within_worked _ _ readable.worked fun table worked =>
    within_bindArguments reads _ _ _ (readable.each table worked)

theorem within_directiveArguments (reads : layout.Reads calls good types) (directive : Directive)
    (readable : directive.arguments.Readable good types) (directives : List DirectiveNode) :
    (directiveArguments layout vars directive directives).Within calls good := by
  unfold directiveArguments
  split
  · exact within_pure _
  · exact within_bind _ _ (within_arguments reads _ _ _ readable) fun _ => within_pure _

end Input

/-- A schema under which selections can be looked at: names are looked up, and what the directives
that every schema has take can be read. -/
structure Schema.Selects (schema : Schema) (calls : Call → Prop) (good : Failure → Prop)
    (types : TypeRef → Prop) : Prop extends schema.toLayout.Reads calls good types where
  named : ∀ name, Checked.FailsWell good (schema.named? name)
  possible : ∀ abstract id, Checked.FailsWell good (schema.isPossible abstract id)
  conditions : ∀ directive ∈ Directive.specified, directive.arguments.Readable good types

namespace Scope

variable {scope : Scope} {types : TypeRef → Prop}

theorem within_isIncluded (selects : scope.schema.Selects calls good types)
    (directives : List DirectiveNode) : (scope.isIncluded directives).Within calls good := by
  have condition : ∀ directive ∈ Directive.specified,
      (scope.condition directive directives).Within calls good := fun directive specified =>
    within_bind _ _ (Input.within_directiveArguments selects.toReads directive
      (selects.conditions directive specified) _) fun _ => within_pure _
  unfold isIncluded
  refine within_bind _ _ (condition _ (by simp [Directive.specified])) fun skipped => ?_
  split
  · exact within_pure _
  · refine within_bind _ _ (condition _ (by simp [Directive.specified])) fun included => ?_
    split
    · exact within_pure _
    · exact within_pure _

theorem failsWell_applies (selects : scope.schema.Selects calls good types)
    (condition : Option String) (type : TypeId) :
    Checked.FailsWell good (scope.applies condition type) := by
  have well : ∀ value : Bool, Checked.FailsWell good (.ok value) :=
    fun _ _ failed => by cases failed
  unfold applies
  cases condition with
  | none => exact well true
  | some name =>
      refine Checked.failsWell_bind _ _ (selects.named name) fun found _ => ?_
      cases found with
      | none => exact well false
      | some id =>
          simp only
          split
          · exact well true
          · split
            · exact selects.possible id type
            · exact well false

end Scope

/-- Selections that can be looked at: whether a node takes part, and whether a fragment applies, is
found out within the allowed calls. -/
structure Scope.Looks (scope : Scope) (calls : Call → Prop) (good : Failure → Prop) : Prop where
  included : ∀ directives, (scope.isIncluded directives).Within calls good
  applies : ∀ condition type, Checked.FailsWell good (scope.applies condition type)

theorem Schema.Selects.looks {scope : Scope} {types : TypeRef → Prop}
    (selects : scope.schema.Selects calls good types) : scope.Looks calls good :=
  ⟨Scope.within_isIncluded selects, Scope.failsWell_applies selects⟩

namespace Selection

variable {scope : Scope}

theorem within_gatherSpread (looks : scope.Looks calls good) (type : TypeId)
    (expand : Expansion) (each : ∀ selections gathering,
      (expand selections gathering).Within calls good)
    (name : String) (gathering : Gathering) :
    (gatherSpread scope type expand name gathering).Within calls good := by
  unfold gatherSpread
  simp only
  split
  · exact within_pure _
  · refine within_bind _ _ (within_checked _ (looks.applies _ _))
      fun applies => ?_
    split
    · exact each _ _
    · exact within_pure _

mutual

theorem within_gather (looks : scope.Looks calls good) (type : TypeId)
    (expand : Expansion) (each : ∀ selections gathering,
      (expand selections gathering).Within calls good)
    (selection : Selection) (gathering : Gathering) :
    (gather scope type expand selection gathering).Within calls good := by
  match selection with
  | field start alias_ name arguments directives selections =>
      simp only [gather]
      refine within_bind _ _ (looks.included _) fun included => ?_
      split
      · exact within_pure _
      · exact within_pure _
  | inlineFragment _ condition directives selections =>
      simp only [gather]
      refine within_bind _ _ (looks.included _) fun included => ?_
      split
      · refine within_bind _ _ (within_checked _ (looks.applies _ _))
          fun applies => ?_
        split
        · exact within_gatherAll looks type expand each selections gathering
        · exact within_pure _
      · exact within_pure _
  | spread _ name directives =>
      simp only [gather]
      split
      · exact within_pure _
      · refine within_bind _ _ (looks.included _) fun included => ?_
        split
        · exact within_gatherSpread looks type expand each name gathering
        · exact within_pure _

theorem within_gatherAll (looks : scope.Looks calls good) (type : TypeId)
    (expand : Expansion) (each : ∀ selections gathering,
      (expand selections gathering).Within calls good)
    (selections : List Selection) (gathering : Gathering) :
    (gatherAll scope type expand selections gathering).Within calls good := by
  match selections with
  | [] => exact within_pure _
  | selection :: rest =>
      simp only [gatherAll]
      exact within_bind _ _ (within_gather looks type expand each selection gathering)
        fun made => within_gatherAll looks type expand each rest made

end

theorem within_gatherWithin (looks : scope.Looks calls good) (type : TypeId)
    (levels : Nat) (selections : List Selection) (gathering : Gathering) :
    (gatherWithin scope type levels selections gathering).Within calls good := by
  induction levels generalizing selections gathering with
  | zero => exact within_gatherAll looks type _ (fun _ _ => within_pure _) _ _
  | succ levels ih => exact within_gatherAll looks type _ ih _ _

end Selection

namespace Scope

variable {scope : Scope}

theorem within_gather (looks : scope.Looks calls good) (type : TypeId)
    (selections : List Selection) (gathering : Gathering) :
    (scope.gather type selections gathering).Within calls good :=
  Selection.within_gatherWithin looks type _ _ _

theorem within_collect (looks : scope.Looks calls good) (type : TypeId)
    (selections : List Selection) : (scope.collect type selections).Within calls good :=
  within_bind _ _ (within_gather looks type _ _) fun _ => within_pure _

theorem within_gatherNodes (looks : scope.Looks calls good) (type : TypeId)
    (nodes : List FieldNode) (gathering : Gathering) :
    (scope.gatherNodes type nodes gathering).Within calls good := by
  induction nodes generalizing gathering with
  | nil => exact within_pure _
  | cons node rest ih =>
      exact within_bind _ _ (within_gather looks type _ _) fun made => ih made

theorem within_collectNodes (looks : scope.Looks calls good) (type : TypeId)
    (nodes : List FieldNode) : (scope.collectNodes type nodes).Within calls good :=
  within_bind _ _ (within_gatherNodes looks type _ _) fun _ => within_pure _

end Scope

namespace Lenient

variable (lenient : Lenient calls good)
include lenient

theorem failsWell {α : Type} (result : Checked α) : Checked.FailsWell good result :=
  fun fault _ => lenient.schema fault

theorem leafFits (layout : Layout) (leaf : TypeId) : layout.LeafFits good leaf :=
  ⟨fun _ _ => lenient.failsWell _, fun _ => lenient.assertion⟩

theorem readable (inputs : Inputs) : inputs.Readable good fun _ => True :=
  ⟨lenient.failsWell _, fun _ _ _ _ => ⟨lenient.failsWell _, fun _ _ => trivial⟩⟩

theorem selects (schema : Schema) : schema.Selects calls good fun _ => True where
  mild := lenient.toMild
  nonNull _ _ := trivial
  list _ _ := trivial
  broken fault _ := lenient.schema fault
  leaf _ _ _ := lenient.leafFits _ _
  fields _ _ _ _ := lenient.readable _
  kind _ _ _ := lenient.assertion
  named _ := lenient.failsWell _
  possible _ _ := lenient.failsWell _
  conditions _ _ := lenient.readable _

theorem within_serialize (values : ∀ function value, calls (.serialize function value))
    (layout : Layout) (leaf : TypeId) (value : Value) :
    (layout.serialize leaf value).Within calls good :=
  Layout.within_serialize lenient.toMild values leaf (lenient.leafFits layout leaf) value

theorem within_arguments (schema : Schema) (vars : Variables) (node : Nat)
    (given : List ArgumentNode) (declared : Inputs) :
    (Input.arguments schema.toLayout vars node given declared).Within calls good :=
  Input.within_arguments (lenient.selects schema).toReads node given declared
    (lenient.readable declared)

theorem within_collect (scope : Scope) (type : TypeId) (selections : List Selection) :
    (scope.collect type selections).Within calls good :=
  Scope.within_collect (lenient.selects scope.schema).looks type selections

theorem within_collectNodes (scope : Scope) (type : TypeId) (nodes : List FieldNode) :
    (scope.collectNodes type nodes).Within calls good :=
  Scope.within_collectNodes (lenient.selects scope.schema).looks type nodes

end Lenient

/-- The calls that read literals. -/
def Call.ReadsLiteral : Call → Prop
  | .parseLiteral .. => True
  | _ => False

theorem lenient_readsLiteral : Lenient Call.ReadsLiteral fun _ => True where
  literals _ _ _ := trivial
  response _ _ _ := trivial
  schema _ := trivial
  value _ := trivial
  leaf _ := trivial
  assertion _ := trivial

/-- Calls of a kind are answered alike in whatever state they are made. -/
def AnswersAlike {σ : Type} (answer : Call → σ → Reply × σ) (calls : Call → Prop) : Prop :=
  ∀ asked, calls asked → ∀ state other, (answer asked state).1 = (answer asked other).1

/-- Literals are read alike in whatever state they are read. -/
abbrev ReadsAlike {σ : Type} (answer : Call → σ → Reply × σ) : Prop :=
  AnswersAlike answer Call.ReadsLiteral

namespace Action

variable {σ α β : Type} {answer : Call → σ → Reply × σ}

/-- An action that only makes such calls comes to the same result in every state. -/
theorem run_of_answersAlike {calls : Call → Prop} (alike : AnswersAlike answer calls)
    (action : Action α) (within : action.Within calls fun _ => True) (state other : σ) :
    (action.run answer state).1 = (action.run answer other).1 := by
  induction action generalizing state other with
  | done result => rfl
  | call asked next ih =>
      have answered := alike asked within.1 state other
      simp only [run]
      rw [answered]
      exact ih _ (within.2 _ fun _ _ => trivial) _ _

theorem ok_of_run_bind {action : Action α} {next : α → Action β} {state : σ} {result : β}
    (ran : ((action >>= next).run answer state).1 = .ok result) :
    ∃ value, (action.run answer state).1 = .ok value
      ∧ ((next value).run answer (action.run answer state).2).1 = .ok result := by
  have split : ((action.andThen _).run answer state).1 = .ok result := ran
  rw [run_andThen] at split
  cases first : (action.run answer state).1 with
  | ok value =>
      rw [first] at split
      exact ⟨value, rfl, split⟩
  | error failure =>
      rw [first] at split
      cases split

end Action

end GraphQL
