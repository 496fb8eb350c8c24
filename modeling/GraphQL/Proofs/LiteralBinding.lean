import GraphQL.Proofs.AcceptedInputs
import GraphQL.Proofs.LiteralValues

/-!
An argument written as a literal and the same argument written as a variable. Where both are taken,
they are bound to one value; where the literal is no value of the type, the variable is refused.
Only a null that a leaf type makes of something else is told apart: as the value of a variable, it
is refused at a type that is not nullable.
-/

namespace GraphQL

namespace Input

variable {σ : Type} {answer : Call → σ → Reply × σ} {schema : Schema} {layout : Layout}
  {vars : Variables} {known : TypeId → Prop} {literal : Literal} {raw : Value}

theorem lookup_putVariable (vars : Variables) (name looked : String) (value : Value) :
    (putVariable vars name value).lookup looked
      = if name = looked then some value else vars.lookup looked := by
  induction vars with
  | nil =>
      by_cases same : name = looked
      · simp [putVariable, same]
      · simp [putVariable, same, List.lookup, beq_eq_false_iff_ne.2 (Ne.symm same)]
  | cons entry rest ih =>
      obtain ⟨key, old⟩ := entry
      rw [putVariable]
      by_cases here : key = name
      · subst here
        by_cases same : key = looked
        · simp [same]
        · simp [same, List.lookup, beq_eq_false_iff_ne.2 (Ne.symm same)]
      · rw [if_neg here]
        by_cases same : key = looked
        · have other : name ≠ looked := fun again => here (same.trans again.symm)
          simp [same, other]
        · simp only [List.lookup, beq_eq_false_iff_ne.2 (Ne.symm same), ih]

section Variables

variable {supplied : List (Value × Value)}

theorem kept_bindVariables (name : String) (value : Value) (nodes : List VariableNode)
    (others : ∀ node ∈ nodes, node.name ≠ name) (made : Variables)
    (held : made.lookup name = some value) (errors : List ResponseError) :
    (bindVariables schema supplied nodes made errors).Ensures answer fun result =>
      ∀ vars, result = .ok (.ok vars) → vars.lookup name = some value := by
  induction nodes generalizing made errors with
  | nil =>
      cases errors with
      | nil =>
          refine Action.ensures_done _ ?_
          rintro vars ⟨⟩
          exact held
      | cons error rest =>
          refine Action.ensures_done _ ?_
          rintro vars ⟨⟩
  | cons node rest ih =>
      have later := ih fun other inside => others other (List.mem_cons_of_mem _ inside)
      refine Action.ensures_bind_any (fun binding => ?_) (by rintro failure vars ⟨⟩)
      cases binding with
      | bound other =>
          refine later _ ?_ _
          rw [lookup_putVariable, if_neg (others node List.mem_cons_self)]
          exact held
      | omitted => exact later _ held _
      | refused problem => exact later _ held _

theorem refused_bindVariables (nodes : List VariableNode) (made : Variables)
    (errors : List ResponseError) (some_ : errors ≠ []) :
    (bindVariables schema supplied nodes made errors).Ensures answer fun result =>
      ∀ vars, result ≠ .ok (.ok vars) := by
  induction nodes generalizing made errors with
  | nil =>
      cases errors with
      | nil => exact absurd rfl some_
      | cons error rest =>
          refine Action.ensures_done _ ?_
          rintro vars ⟨⟩
  | cons node rest ih =>
      refine Action.ensures_bind_any (fun binding => ?_) (by rintro failure vars ⟨⟩)
      cases binding with
      | bound other => exact ih _ _ some_
      | omitted => exact ih _ _ some_
      | refused problem => exact ih _ _ (by simp)

/-- What the variables from one on come to, whatever was bound before, all of them come to. -/
theorem ensures_bindVariables_append
    {post : Except Failure (Except (List ResponseError) Variables) → Prop}
    (failed : ∀ failure, post (.error failure)) (before after : List VariableNode)
    (each : ∀ made errors, (bindVariables schema supplied after made errors).Ensures answer post)
    (made : Variables) (errors : List ResponseError) :
    (bindVariables schema supplied (before ++ after) made errors).Ensures answer post := by
  induction before generalizing made errors with
  | nil => exact each made errors
  | cons node rest ih =>
      refine Action.ensures_bind_any (fun binding => ?_) failed
      cases binding with
      | bound value => exact ih _ _
      | omitted => exact ih _ _
      | refused problem => exact ih _ _

end Variables

/-- An operation defines a variable once, for values that a type takes as well. -/
structure DefinesOnce (schema : Schema) (known : TypeId → Prop) (operation : Operation)
    (node : VariableNode) (type : TypeRef) : Prop where
  once : ∃ before after, operation.variableNodes = before ++ node :: after
    ∧ ∀ other ∈ after, other.name ≠ node.name
  typed : ∃ written inner, schema.typeOfNode node.type = .ok (some written)
    ∧ SameInEffect schema.toLayout type written ∧ written.innermost = .ok inner ∧ known inner

theorem isInputType_of_known (types : InputTypes layout known) {type : TypeRef} {inner : TypeId}
    (leads : type.innermost = .ok inner) (member : known inner) :
    layout.isInputType type = .ok true := by
  rw [Layout.isInputType, Layout.innermostIs, leads, Except.map]
  rcases types.shape inner member with leaf | ⟨declared, body, _⟩
  · cases kind : layout.kindOf inner <;> rw [kind] at leaf <;> first | rfl | cases leaf
  · simp only [Layout.kindOf, TypeDef.kind, body, TypeKind.isInput]

theorem isNonNull_of_same {type other : TypeRef} (same : SameInEffect layout type other) :
    type.isNonNull = other.isNonNull := by
  cases type <;> cases other <;> first | rfl | cases same

theorem null_of_untyped (constant : literal.isConstant = true)
    (plain : literal.untyped [] = .ok .null) : ∃ start, literal = .null start := by
  cases literal with
  | null start => exact ⟨start, rfl⟩
  | reference start name => cases constant
  | int start numeral =>
      simp only [Literal.untyped] at plain
      cases read : Literal.readInt numeral <;> rw [read] at plain <;> cases plain
  | list start items =>
      simp only [Literal.untyped] at plain
      cases read : Literal.untypedItems [] items <;> rw [read] at plain <;> cases plain
  | object start fields =>
      simp only [Literal.untyped] at plain
      cases read : Literal.untypedFields [] fields <;> rw [read] at plain <;> cases plain
  | float start numeral => cases plain
  | string start text block => cases plain
  | boolean start value => cases plain
  | enum start name => cases plain

/-- A variable is bound to what is read from the literal of its value, or it is refused and the
literal is no value of the type. -/
theorem alike_bindVariable (types : TextInputTypes schema.toLayout known)
    (constant : literal.isConstant = true) (plain : literal.untyped [] = .ok raw) (type : TypeRef)
    (agrees : ∀ part leaf, LeafPosition schema.toLayout literal type part leaf →
      LeafAgrees answer schema.toLayout vars part leaf)
    (operation : Operation) (node : VariableNode) (supplied : List (Value × Value))
    (defines : DefinesOnce schema known operation node type)
    (given : Value.lookup? supplied (.str node.name) = some raw) :
    (∃ value, value.isUndefined = false
        ∧ (readLiteral schema.toLayout vars literal type).Settles answer (.ok value)
        ∧ (bindVariable schema supplied node).Settles answer (.ok (.bound value)))
      ∨ (readLiteral schema.toLayout vars literal type).Settles answer (.ok .undefined)
        ∧ (bindVariable schema supplied node).Ensures answer fun result =>
          ∃ problem, result = .ok (.refused problem) := by
  obtain ⟨written, inner, denotes, same, leads, member⟩ := defines.typed
  have whole : bindVariable schema supplied node = bindSupplied schema written raw := by
    rw [bindVariable, worked_bind denotes]
    simp only
    rw [worked_bind (isInputType_of_known types.toInputTypes leads member)]
    simp only [Bool.not_true, Bool.false_eq_true, if_false, given]
  rw [whole, bindSupplied]
  cases refused : raw.isNull && written.isNonNull with
  | true =>
      rw [Bool.and_eq_true] at refused
      obtain ⟨text, shown⟩ := types.text written inner leads member
      have nothing : raw = .null := by
        cases raw <;> first | rfl | cases refused.1
      subst nothing
      obtain ⟨start, rfl⟩ := null_of_untyped constant plain
      have required : type.isNonNull = true := (isNonNull_of_same same).trans refused.2
      refine .inr ⟨?_, Action.settles_bind (settles_text shown) (Action.ensures_done _ ⟨_, rfl⟩)⟩
      cases type with
      | nonNull of => exact Action.ensures_done _ rfl
      | _ => cases required
  | false =>
      simp only [Bool.false_eq_true, if_false]
      rcases literalAlike types literal constant type written inner [] raw plain same leads member
        agrees with ⟨value, defined, read, coerced⟩ | ⟨read, refused⟩
      · refine .inl ⟨value, defined, read, Action.ensures_andThen coerced ?_⟩
        rintro result rfl
        exact Action.ensures_done _ rfl
      · refine .inr ⟨read, Action.ensures_andThen refused ?_⟩
        rintro result ⟨fault, rfl⟩
        exact Action.ensures_done _ ⟨_, rfl⟩

section Arguments

variable {place : Nat} {given : List ArgumentNode}

theorem mem_bindArguments {name : Value} {argument : InputValue} (good : Option Value → Prop)
    (declared : List (Value × InputValue)) (inside : (name, argument) ∈ declared)
    (binds : (bindArgument layout vars place given name argument).Ensures answer fun result =>
      ∀ found, result = .ok found → good found) :
    (bindArguments layout vars place given declared).Ensures answer fun result =>
      ∀ bound, result = .ok bound →
        ∃ found, good found ∧ ∀ value, found = some value → (name, value) ∈ bound := by
  induction declared with
  | nil => cases inside
  | cons entry rest ih =>
      obtain ⟨key, input⟩ := entry
      rw [bindArguments]
      rcases List.mem_cons.1 inside with same | later
      · cases same
        refine Action.ensures_bind binds (fun found ok => ?_) (by rintro failure _ bound ⟨⟩)
        cases found with
        | none =>
            exact fun state bound _ => ⟨none, ok _ rfl, by rintro value ⟨⟩⟩
        | some value =>
            refine Action.ensures_bind_any (fun others => Action.ensures_done _ ?_)
              (by rintro failure bound ⟨⟩)
            rintro bound ⟨⟩
            refine ⟨some value, ok _ rfl, ?_⟩
            rintro other ⟨⟩
            exact List.mem_cons_self
      · refine Action.ensures_bind_any (fun found => ?_) (by rintro failure bound ⟨⟩)
        cases found with
        | none => exact ih later
        | some value =>
            refine Action.ensures_bind (ih later) (fun others holds => Action.ensures_done _ ?_)
              (by rintro failure _ bound ⟨⟩)
            rintro bound ⟨⟩
            obtain ⟨found, ok, contained⟩ := holds others rfl
            exact ⟨found, ok, fun value same => List.mem_cons_of_mem _ (contained value same)⟩

/-- Binding an argument comes to a value, which it has among the bound arguments. -/
structure BoundTo (answer : Call → σ → Reply × σ) (layout : Layout) (vars : Variables) (place : Nat)
    (given : List ArgumentNode) (declared : Table InputValue) (name : Value)
    (argument : InputValue) (value : Value) : Prop where
  settles : (bindArgument layout vars place given name argument).Settles answer (.ok (some value))
  contained : (arguments layout vars place given (.ok declared)).Ensures answer fun result =>
    ∀ bound, result = .ok bound → (name, value) ∈ bound

/-- Binding an argument is refused with an error of the response, and no arguments are bound. -/
structure Unbound (answer : Call → σ → Reply × σ) (layout : Layout) (vars : Variables) (place : Nat)
    (given : List ArgumentNode) (declared : Table InputValue) (name : Value)
    (argument : InputValue) : Prop where
  refused : (bindArgument layout vars place given name argument).Ensures answer fun result =>
    ∃ error, result = .error (.response error)
  nothing : (arguments layout vars place given (.ok declared)).Ensures answer fun result =>
    ∀ bound, result ≠ .ok bound

variable {declared : Table InputValue} {name : Value} {argument : InputValue} {type : TypeRef}
  {value : Value}

theorem boundTo_of_settles (inside : (name, argument) ∈ declared.entries)
    (settles : (bindArgument layout vars place given name argument).Settles answer
      (.ok (some value))) :
    BoundTo answer layout vars place given declared name argument value := by
  refine ⟨settles, ?_⟩
  have binds := mem_bindArguments (· = some value) declared.entries inside
    (settles.mono fun result same found ok => by cases same.symm.trans ok; rfl)
  refine binds.mono fun result holds bound same => ?_
  obtain ⟨found, rfl, contained⟩ := holds bound same
  exact contained value rfl

theorem unbound_of_refused (inside : (name, argument) ∈ declared.entries)
    (refused : (bindArgument layout vars place given name argument).Ensures answer fun result =>
      ∃ error, result = .error (.response error)) :
    Unbound answer layout vars place given declared name argument := by
  refine ⟨refused, ?_⟩
  have binds := mem_bindArguments (fun _ => False) declared.entries inside
    (refused.mono fun result fails found ok => by
      obtain ⟨error, same⟩ := fails
      cases same.symm.trans ok)
  refine binds.mono fun result holds bound same => ?_
  obtain ⟨_, never, _⟩ := holds bound same
  exact never

theorem bindArgument_of_constant (given_ : GivenAs given name literal)
    (constant : literal.isConstant = true) (typed : argument.type = .ok type) :
    bindArgument layout vars place given name argument
      = readArgument layout vars name type literal := by
  obtain ⟨node, found, rfl⟩ := given_
  have plain : node.value.reference? = none := by
    cases same : node.value <;> rw [same] at constant <;> first | rfl | cases constant
  rw [bindArgument, worked_bind typed]
  simp only [found, plain, Option.filter_none]

theorem bindArgument_of_variable {start : Nat} {variable_ : String}
    (given_ : GivenAs given name (.reference start variable_)) (typed : argument.type = .ok type)
    (held : vars.lookup variable_ = some value) :
    bindArgument layout vars place given name argument
      = readArgument layout vars name type (.reference start variable_) := by
  obtain ⟨node, found, same⟩ := given_
  rw [bindArgument, worked_bind typed]
  simp only [found, same, Literal.reference?, Option.filter_some, held, Option.isNone_some,
    Bool.false_eq_true, if_false]

theorem settles_readArgument (constant : literal.isConstant = true)
    (defined : value.isUndefined = false)
    (reads : (readLiteral layout vars literal type).Settles answer (.ok value)) :
    (readArgument layout vars name type literal).Settles answer (.ok (some value)) := by
  have plain : isNullVariable vars literal = false := by
    cases literal <;> first | rfl | cases constant
  rw [readArgument, plain, Bool.or_false]
  cases refused : literal.isNull && type.isNonNull with
  | true =>
      rw [Bool.and_eq_true] at refused
      intro state
      have read := reads state
      cases literal with
      | null start =>
          cases type with
          | nonNull of =>
              cases read
              cases defined
          | _ => cases refused.2
      | _ => cases refused.1
  | false =>
      simp only [Bool.false_eq_true, if_false]
      refine Action.settles_bind reads ?_
      simp only [defined, Bool.false_eq_true, if_false]
      exact Action.ensures_done _ rfl

theorem refused_readArgument (types : InputTypes layout known) {inner : TypeId}
    (leads : type.innermost = .ok inner) (member : known inner)
    (reads : (readLiteral layout vars literal type).Settles answer (.ok .undefined)) :
    (readArgument layout vars name type literal).Ensures answer fun result =>
      ∃ error, result = .error (.response error) := by
  rw [readArgument]
  split
  · obtain ⟨text, written⟩ := types.text type inner leads member
    exact Action.settles_bind (settles_text written) (Action.ensures_done _ ⟨_, rfl⟩)
  · exact Action.settles_bind reads (Action.ensures_done _ ⟨_, rfl⟩)

theorem settles_readArgument_variable {start : Nat} {variable_ : String}
    (held : vars.lookup variable_ = some value) (defined : value.isUndefined = false)
    (fits : (value.isNull && type.isNonNull) = false) :
    (readArgument layout vars name type (.reference start variable_)).Settles answer
      (.ok (some value)) := by
  simp only [readArgument, Literal.isNull, isNullVariable, held, Option.any_some, Bool.false_or,
    fits, Bool.false_eq_true, if_false, readLiteral, readReference]
  refine Action.settles_bind (Action.ensures_done _ rfl) ?_
  simp only [defined, Bool.false_eq_true, if_false]
  exact Action.ensures_done _ rfl

theorem refused_readArgument_variable (types : InputTypes layout known) {inner : TypeId}
    (leads : type.innermost = .ok inner) (member : known inner) {start : Nat} {variable_ : String}
    (held : vars.lookup variable_ = some value) (null : (value.isNull && type.isNonNull) = true) :
    (readArgument layout vars name type (.reference start variable_)).Ensures answer fun result =>
      ∃ error, result = .error (.response error) := by
  obtain ⟨text, written⟩ := types.text type inner leads member
  simp only [readArgument, Literal.isNull, isNullVariable, held, Option.any_some, Bool.false_or,
    null, if_true]
  exact Action.settles_bind (settles_text written) (Action.ensures_done _ ⟨_, rfl⟩)

end Arguments

/-- A literal without variables is read as an input type to what its plain value is coerced to, or
it is no value of the type and the plain value is refused. So an argument written as the literal is
bound like the argument written as a variable that is supplied with the plain value, except where a
leaf type makes null of it and the type is not nullable. -/
theorem literal_binds_like_variable (types : TextInputTypes schema.toLayout known)
    (literal : Literal) (raw : Value) (constant : literal.isConstant = true) (plain : literal.untyped [] = .ok raw)
    (type : TypeRef) (inner : TypeId) (leads : type.innermost = .ok inner) (member : known inner)
    (agrees : ∀ part leaf, LeafPosition schema.toLayout literal type part leaf →
      LeafAgrees answer schema.toLayout vars part leaf) :
    (∀ path, Alike answer (readLiteral schema.toLayout vars literal type)
        (coerce schema.toLayout raw type path))
      ∧ ∀ operation node supplied, DefinesOnce schema known operation node type →
        Value.lookup? supplied (.str node.name) = some raw →
        ∀ declared name argument, (name, argument) ∈ declared.entries → argument.type = .ok type →
        ∀ place direct start indirect, GivenAs direct name literal →
          GivenAs indirect name (.reference start node.name) →
          (∃ value, value.isUndefined = false
            ∧ BoundTo answer schema.toLayout vars place direct declared name argument value
            ∧ (bindVariable schema supplied node).Settles answer (.ok (.bound value))
            ∧ ∀ state, ((coerceVariables schema operation supplied).run answer state).1
                = .ok (.ok vars) →
              if value.isNull && type.isNonNull then
                Unbound answer schema.toLayout vars place indirect declared name argument
              else
                BoundTo answer schema.toLayout vars place indirect declared name argument value)
          ∨ Unbound answer schema.toLayout vars place direct declared name argument
            ∧ (bindVariable schema supplied node).Ensures answer (fun result =>
              ∃ problem, result = .ok (.refused problem))
            ∧ (coerceVariables schema operation supplied).Ensures answer fun result =>
              ∀ vars, result ≠ .ok (.ok vars) := by
  refine ⟨fun path => literalAlike types literal constant type type inner path raw plain
    (sameInEffect_refl type inner leads) leads member agrees, ?_⟩
  intro operation node supplied defines given declared name argument inside typed place direct start
    indirect direct_ indirect_
  obtain ⟨before, after, split_, others⟩ := defines.once
  rcases alike_bindVariable types constant plain type agrees operation node supplied defines given
    with ⟨value, defined, read, bound⟩ | ⟨read, refused⟩
  -- whatever else the run binds, the variable keeps the value that it is bound to
  · have held : (coerceVariables schema operation supplied).Ensures answer fun result =>
        ∀ vars, result = .ok (.ok vars) → vars.lookup node.name = some value := by
      rw [coerceVariables, split_]
      refine ensures_bindVariables_append (by rintro failure vars ⟨⟩) before _
        (fun made errors => ?_) _ _
      refine Action.settles_bind bound (kept_bindVariables node.name value after others _ ?_ _)
      rw [lookup_putVariable, if_pos rfl]
    refine .inl ⟨value, defined, boundTo_of_settles inside ?_, bound, fun state coerced => ?_⟩
    · rw [bindArgument_of_constant direct_ constant typed]
      exact settles_readArgument constant defined read
    · have found := held state vars coerced
      split
      · next null =>
          refine unbound_of_refused inside ?_
          rw [bindArgument_of_variable indirect_ typed found]
          exact refused_readArgument_variable types.toInputTypes leads member found null
      · next fits =>
          refine boundTo_of_settles inside ?_
          rw [bindArgument_of_variable indirect_ typed found]
          exact settles_readArgument_variable found defined (Bool.eq_false_iff.2 fits)
  · refine .inr ⟨unbound_of_refused inside ?_, refused, ?_⟩
    · rw [bindArgument_of_constant direct_ constant typed]
      exact refused_readArgument types.toInputTypes leads member read
    · rw [coerceVariables, split_]
      refine ensures_bindVariables_append (by rintro failure vars ⟨⟩) before _
        (fun made errors => ?_) _ _
      refine Action.ensures_bind refused (fun binding found => ?_) (by rintro failure ⟨_, ⟨⟩⟩)
      obtain ⟨problem, same⟩ := found
      cases same
      exact refused_bindVariables after made _ (by simp)

end Input

namespace Input

theorem textInputTypes_taking :
    TextInputTypes Schema.taking.toLayout Schema.taking.TakesInput := by
  refine ⟨Schema.inputTypes_of_check Schema.check_taking rfl, fun id fields _ body => ?_⟩
  rcases id with _ | _ | _ | _ | _ <;> cases body
  rw [InputValue.entries_coordinates]
  intro entry inside
  rcases List.mem_cons.1 inside with rfl | inside
  · exact ⟨"x", rfl⟩
  · rcases List.mem_cons.1 inside with rfl | inside
    · exact ⟨"y", rfl⟩
    · cases inside

theorem takesInput_point : Schema.taking.TakesInput (.declared 1) :=
  ⟨rfl, .inl ⟨_, .str "Point", Schema.reached_taking, by simp [Layout.leafInEffect]⟩⟩

/-- A point with one coordinate. -/
def point : Literal := .object 0 [("x", .int 0 "1")]

def pointsNode : VariableNode := ⟨0, "p", .list 0 (.nonNull (.named 0 "Point")), none⟩

def pointsOperation : Operation := ⟨0, .query, none, [pointsNode], [], []⟩

/-- An application that answers every call with null. -/
def answerNull (_ : Call) (state : Unit) : Reply × Unit := (.ok .null, state)

theorem typeOfNode_points :
    Schema.taking.typeOfNode pointsNode.type
      = .ok (some (.list (.nonNull (.named (.declared 1))))) := by
  cbv

theorem agrees_int (vars : Variables) :
    LeafAgrees answerNull Schema.taking.toLayout vars (.int 0 "1") (.standard .int) := by
  refine ⟨.int 1, rfl, .inl ⟨.int 1, rfl, ?_, ?_⟩⟩
  · exact Action.ensures_done _ rfl
  · exact Action.ensures_done _ rfl

theorem agrees_point (vars : Variables) (part : Literal) (leaf : TypeId)
    (position : LeafPosition Schema.taking.toLayout point (.list (.nonNull (.named (.declared 1))))
      part leaf) :
    LeafAgrees answerNull Schema.taking.toLayout vars part leaf := by
  cases position with
  | single _ position =>
    cases position with
    | nonNull position =>
      cases position with
      | here _ leaf => cases leaf
      | field body inside typed given position =>
        cases body
        rw [InputValue.entries_coordinates] at inside
        simp only [List.reverse_singleton, List.lookup] at given
        split at given
        · next same =>
            cases given
            rw [beq_iff_eq.1 same] at inside
            rcases List.mem_cons.1 inside with here | inside
            · cases here
              cases typed
              cases position with
              | nonNull position =>
                cases position with
                | here => exact agrees_int vars
            · rcases List.mem_cons.1 inside with here | inside
              · simp at here
              · cases inside
        · cases given

def pointNodes (value : Literal) : List ArgumentNode := [⟨0, "points", value⟩]

def pointArguments : Table InputValue :=
  .ofList [(.str "points", .points), (.str "token", .token)]

theorem entries_pointArguments :
    pointArguments.entries = [(.str "points", .points), (.str "token", .token)] := by
  cbv

/-- One point, as a list, with the coordinate that was left out. -/
def boundPoints : Value := .list [.map [(.str "x", .int 1), (.str "y", .int 0)]]

def pointSupplied : List (Value × Value) := [(.str "p", .map [(.str "x", .int 1)])]

theorem coerced_points :
    ((coerceVariables Schema.taking pointsOperation pointSupplied).run answerNull ()).1
      = .ok (.ok [("p", boundPoints)]) := by
  cbv

theorem bound_points :
    ((bindArgument Schema.taking.toLayout [("p", boundPoints)] 0 (pointNodes point) (.str "points")
      .points).run answerNull ()).1 = .ok (some boundPoints) := by
  cbv

/-- A point is bound alike as a literal and as a variable. -/
theorem point_binds_like_variable :
    BoundTo answerNull Schema.taking.toLayout [("p", boundPoints)] 0 (pointNodes point)
        pointArguments (.str "points") .points boundPoints
      ∧ BoundTo answerNull Schema.taking.toLayout [("p", boundPoints)] 0
        (pointNodes (.reference 0 "p")) pointArguments (.str "points") .points boundPoints := by
  have plain : point.untyped [] = .ok (.map [(.str "x", .int 1)]) := by
    cbv
  have defines : DefinesOnce Schema.taking Schema.taking.TakesInput pointsOperation pointsNode
      (.list (.nonNull (.named (.declared 1)))) :=
    ⟨⟨[], [], rfl, (fun _ inside => by cases inside)⟩, _, .declared 1, typeOfNode_points, .inl rfl,
      rfl, takesInput_point⟩
  have supplied : Value.lookup? pointSupplied (.str pointsNode.name)
      = some (.map [(.str "x", .int 1)]) := by
    cbv
  have inside : (.str "points", .points) ∈ pointArguments.entries := by
    rw [entries_pointArguments]
    exact List.mem_cons_self
  have written : GivenAs (pointNodes point) (.str "points") point :=
    ⟨⟨0, "points", point⟩, by cbv, rfl⟩
  have named : GivenAs (pointNodes (.reference 0 "p")) (.str "points") (.reference 0 "p") :=
    ⟨⟨0, "points", .reference 0 "p"⟩, by cbv, rfl⟩
  obtain ⟨-, binds⟩ := literal_binds_like_variable textInputTypes_taking point _ rfl plain
    _ (.declared 1) rfl takesInput_point (agrees_point [("p", boundPoints)])
  rcases binds pointsOperation pointsNode pointSupplied defines supplied pointArguments
    (.str "points") .points inside rfl 0 (pointNodes point) 0 (pointNodes (.reference 0 "p"))
    written named with ⟨value, defined, direct, settles, indirect⟩ | ⟨_, _, never⟩
  · have same := (direct.settles ()).symm.trans bound_points
    cases same
    exact ⟨direct, indirect () coerced_points⟩
  · exact (never () _ coerced_points).elim

def tokenNode : VariableNode := ⟨0, "t", .nonNull (.named 0 "Token"), none⟩

def tokenOperation : Operation := ⟨0, .query, none, [tokenNode], [], []⟩

def tokenNodes (value : Literal) : List ArgumentNode := [⟨0, "token", value⟩]

/-- Inputs with a field whose type is not worked out. -/
def brokenLayout : Layout where
  types := #[⟨.str "Broken", .input (.ok (.ofList
    [(.str "x", ⟨.str "x", .error (.notNamedType "x"), .undefined⟩)]))⟩]
  query := none
  mutation := none
  subscription := none
  extra := []
  directives := []
  overrides := []
  assumeValid := true

/-- A token that is read as null is bound as a literal only, though both ways of reading it agree.
In a type that is not worked out, a literal may be no value of the type where its plain value is
not refused but fails. -/
theorem null_is_bound_as_literal_only :
    (∀ part leaf, LeafPosition Schema.taking.toLayout (.int 0 "1") (.nonNull (.named (.declared 2)))
        part leaf → LeafAgrees answerNull Schema.taking.toLayout [("t", .null)] part leaf)
      ∧ ((coerceVariables Schema.taking tokenOperation [(.str "t", .int 1)]).run answerNull ()).1
        = .ok (.ok [("t", .null)])
      ∧ ((arguments Schema.taking.toLayout [("t", .null)] 0 (tokenNodes (.int 0 "1"))
          (.ok pointArguments)).run answerNull ()).1 = .ok [(.str "token", .null)]
      ∧ ((arguments Schema.taking.toLayout [("t", .null)] 0 (tokenNodes (.reference 0 "t"))
          (.ok pointArguments)).run answerNull ()).1 = .error (.response
            { message := "Argument \"token\" of non-null type \"Token!\" must not be null."
              nodes := [0] })
      ∧ ((readLiteral brokenLayout [] (.object 0 [("z", .null 0)]) (.named (.declared 0))).run
          answerNull ()).1 = .ok .undefined
      ∧ ((coerce brokenLayout (.map [(.str "z", .null)]) (.named (.declared 0)) []).run
          answerNull ()).1 = .error (.schema (.notNamedType "x")) := by
  refine ⟨fun part leaf position => ?_, ?_, ?_, ?_, ?_, ?_⟩
  · cases position with
    | nonNull position =>
      cases position with
      | here =>
          refine ⟨.int 1, rfl, .inl ⟨.null, rfl, ?_, ?_⟩⟩
          · exact fun state => rfl
          · exact fun state => rfl
  all_goals cbv

end Input

end GraphQL
