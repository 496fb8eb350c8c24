import GraphQL.Proofs.Implementing
import GraphQL.Proofs.LiteralValues

/-!
A variable without a value means omission. Arguments are bound alike by a node and by what is left
of the node without the arguments and the declared input fields that are such variables, and with
null for the list items that are.
-/

namespace GraphQL

/-- The type of the items of a list that is read as a type. -/
def TypeRef.item? : TypeRef → Option TypeRef
  | nonNull of => of.item?
  | list of => some of
  | _ => none

/-- The declared fields of an object that is read as a type. A single object stands for a list of
it. -/
def Layout.fieldsOf? (layout : Layout) (type : TypeRef) : Option (Table InputValue) :=
  match type.innermost with
  | .ok id =>
    match (layout.definition id).body with
    | .input (.ok fields) => some fields
    | _ => none
  | .error _ => none

theorem Value.eq_of_equals_str {text : String} {value : Value}
    (same : value.equals (.str text) = true) : value = .str text :=
  key_eq_str_of_isKey (by rw [isKey, same, Bool.or_true])

namespace Literal

mutual

/-- Whether no object in a literal gives a field twice. -/
def givesOnce : Literal → Bool
  | .list _ items => allGiveOnce items
  | .object _ fields => decide (fields.map (·.1)).Nodup && fieldsGiveOnce fields
  | _ => true

def allGiveOnce : List Literal → Bool
  | [] => true
  | item :: rest => item.givesOnce && allGiveOnce rest

def fieldsGiveOnce : List (String × Literal) → Bool
  | [] => true
  | (_, field) :: rest => field.givesOnce && fieldsGiveOnce rest

end

theorem mem_fieldsGiveOnce {fields : List (String × Literal)}
    (once : fieldsGiveOnce fields = true) : ∀ field ∈ fields, field.2.givesOnce = true := by
  induction fields with
  | nil =>
      intro field inside
      cases inside
  | cons field rest ih =>
      obtain ⟨here, later⟩ := Bool.and_eq_true_iff.1 once
      intro other inside
      rcases List.mem_cons.1 inside with rfl | after
      · exact here
      · exact ih later other after

end Literal

namespace Input

mutual

/-- What is left of a literal that is read as a type, if it is known as what: declared fields that
are variables without a value are left out, and list items that are become null. -/
def reduced (layout : Layout) (vars : Variables) (literal : Literal) (type : Option TypeRef) :
    Literal :=
  match literal with
  | .list start items => .list start (reducedItems layout vars items (type.bind TypeRef.item?))
  | .object start fields =>
    .object start (reducedFields layout vars fields (type.bind layout.fieldsOf?))
  | other => other

def reducedItems (layout : Layout) (vars : Variables) (items : List Literal)
    (type : Option TypeRef) : List Literal :=
  match items with
  | [] => []
  | item :: rest =>
    (if isMissing vars item then .null item.start else reduced layout vars item type)
      :: reducedItems layout vars rest type

def reducedFields (layout : Layout) (vars : Variables) (fields : List (String × Literal))
    (declared : Option (Table InputValue)) : List (String × Literal) :=
  match fields with
  | [] => []
  | (name, field) :: rest =>
    match declared.bind (·.find? name) with
    | some input =>
      if isMissing vars field then reducedFields layout vars rest declared
      else (name, reduced layout vars field input.type.toOption)
        :: reducedFields layout vars rest declared
    | none =>
      (name, reduced layout vars field none) :: reducedFields layout vars rest declared

end

/-- What is left of an argument, if it is not left out. -/
def reducedArgument? (layout : Layout) (vars : Variables) (declared : Inputs)
    (node : ArgumentNode) : Option ArgumentNode :=
  if isMissing vars node.value then none
  else
    let argument := declared.toOption.bind (·.find? node.name)
    some { node with value := reduced layout vars node.value (argument.bind (·.type.toOption)) }

/-- What is left of the arguments of a node. -/
def reducedArguments (layout : Layout) (vars : Variables) (declared : Inputs)
    (given : List ArgumentNode) : List ArgumentNode :=
  given.filterMap (reducedArgument? layout vars declared)

/-- No list or object with a variable in it stands where a leaf is read. -/
def ConstantLeaves (layout : Layout) (literal : Literal) (type : TypeRef) : Prop :=
  ∀ part leaf, LeafPosition layout literal type part leaf → part.reference? = none →
    part.isConstant = true

variable {layout : Layout} {vars : Variables}

mutual

theorem reduced_of_isConstant (literal : Literal) (constant : literal.isConstant = true)
    (type : Option TypeRef) : reduced layout vars literal type = literal := by
  match literal with
  | .list start items =>
      rw [reduced, reducedItems_of_isConstant items constant]
  | .object start fields =>
      rw [reduced, reducedFields_of_isConstant fields constant]
  | .reference .. | .int .. | .float .. | .string .. | .boolean .. | .null .. | .enum .. => rfl

theorem reducedItems_of_isConstant (items : List Literal)
    (constant : Literal.allConstant items = true) (type : Option TypeRef) :
    reducedItems layout vars items type = items := by
  match items with
  | [] => rfl
  | item :: rest =>
      obtain ⟨here, later⟩ := Bool.and_eq_true_iff.1 constant
      have present : isMissing vars item = false := isMissing_of_isConstant item here
      rw [reducedItems, present, if_neg Bool.false_ne_true, reduced_of_isConstant item here,
        reducedItems_of_isConstant rest later]

theorem reducedFields_of_isConstant (fields : List (String × Literal))
    (constant : Literal.fieldsConstant fields = true) (declared : Option (Table InputValue)) :
    reducedFields layout vars fields declared = fields := by
  match fields with
  | [] => rfl
  | (name, field) :: rest =>
      obtain ⟨here, later⟩ := Bool.and_eq_true_iff.1 constant
      have present : isMissing vars field = false := isMissing_of_isConstant field here
      have reads := reducedFields_of_isConstant rest later declared
      unfold reducedFields
      split
      · rw [present, if_neg Bool.false_ne_true, reduced_of_isConstant field here, reads]
      · rw [reduced_of_isConstant field here, reads]

end

theorem form_reduced (literal : Literal) (type : Option TypeRef) :
    (reduced layout vars literal type).start = literal.start
      ∧ (reduced layout vars literal type).isNull = literal.isNull
      ∧ (reduced layout vars literal type).reference? = literal.reference? := by
  cases literal <;> exact ⟨rfl, rfl, rfl⟩

theorem isMissing_reduced (literal : Literal) (type : Option TypeRef) :
    isMissing vars (reduced layout vars literal type) = isMissing vars literal := by
  rw [isMissing_eq, isMissing_eq, (form_reduced literal type).2.2]

/-- A literal is read as every type like what is left of it. -/
def ReadsReduced (layout : Layout) (vars : Variables) (literal : Literal) : Prop :=
  ∀ type, literal.givesOnce = true → ConstantLeaves layout literal type →
    readLiteral layout vars (reduced layout vars literal (some type)) type
      = readLiteral layout vars literal type

theorem readItems_null (start : Nat) (rest : List Literal) (type : TypeRef)
    (present : type.present = .ok type) (made : List Value) :
    readItems layout vars (.null start :: rest) type made
      = if type.isNonNull then return .undefined
        else readItems layout vars rest type (made ++ [.null]) := by
  cases type with
  | broken fault => cases present
  | named id => rfl
  | list of => rfl
  | nonNull of => rfl

theorem readItems_reduced (type : TypeRef) (present : type.present = .ok type)
    (items : List Literal) (once : Literal.allGiveOnce items = true)
    (each : ∀ item ∈ items, ReadsReduced layout vars item)
    (bare : ∀ item ∈ items, ConstantLeaves layout item type) (made : List Value) :
    readItems layout vars (reducedItems layout vars items (some type)) type made
      = readItems layout vars items type made := by
  induction items generalizing made with
  | nil => rfl
  | cons item rest ih =>
      obtain ⟨here, later⟩ := Bool.and_eq_true_iff.1 once
      have tail := ih later (fun other inside => each other (List.mem_cons_of_mem _ inside))
        fun other inside => bare other (List.mem_cons_of_mem _ inside)
      rw [reducedItems]
      cases missing : isMissing vars item with
      | true =>
          rw [if_pos rfl, readItems_null _ _ _ present, tail, readItems, missing, if_pos rfl]
      | false =>
          have same := each item List.mem_cons_self type here (bare item List.mem_cons_self)
          rw [if_neg Bool.false_ne_true, readItems, readItems, isMissing_reduced, missing, same]
          simp only [tail]

/-- The last literal that is left under a name. -/
theorem lookup_reducedFields (fields : List (String × Literal))
    (distinct : (fields.map (·.1)).Nodup) (declared : Table InputValue) (key : String)
    (input : InputValue) (known : declared.find? key = some input) :
    (reducedFields layout vars fields (some declared)).reverse.lookup key
      = ((fields.reverse.lookup key).filter fun field => !isMissing vars field).map fun field =>
        reduced layout vars field input.type.toOption := by
  induction fields with
  | nil => rfl
  | cons field rest ih =>
      obtain ⟨name, literal⟩ := field
      obtain ⟨fresh, later⟩ := List.nodup_cons.1 distinct
      have tail := ih later
      rw [List.reverse_cons, List.lookup_append, reducedFields]
      by_cases same : key = name
      · -- the name is given here, so it is not given later
        subst same
        have unknown : rest.reverse.lookup key = none := by
          refine List.lookup_eq_none_iff.2 fun entry inside => ?_
          refine bne_iff_ne.2 fun again => fresh (again ▸ ?_)
          exact List.mem_map.2 ⟨entry, List.mem_reverse.1 inside, rfl⟩
        rw [unknown, Option.filter_none, Option.map_none] at tail
        simp only [Option.bind_some, known, unknown, Option.none_or, List.lookup_cons_self]
        cases missing : isMissing vars literal with
        | true => simp [tail, missing]
        | false => simp [tail, missing, List.lookup_append]
      · have other : [(name, literal)].lookup key = none := by
          simp [List.lookup, beq_eq_false_iff_ne.2 same]
        rw [other, Option.or_none, ← tail]
        have skips (kept : Literal) :
            ((name, kept) :: reducedFields layout vars rest (some declared)).reverse.lookup key
              = (reducedFields layout vars rest (some declared)).reverse.lookup key := by
          simp [List.lookup_append, List.lookup, beq_eq_false_iff_ne.2 same]
        split
        · split
          · rfl
          · exact skips _
        · exact skips _

theorem any_reducedFields (fields : List (String × Literal)) (declared : Table InputValue) :
    ((fieldReaders layout vars (reducedFields layout vars fields (some declared))).any
        fun field => (declared.find? field.1).isNone)
      = (fieldReaders layout vars fields).any fun field => (declared.find? field.1).isNone := by
  induction fields with
  | nil => rfl
  | cons field rest ih =>
      obtain ⟨name, literal⟩ := field
      rw [reducedFields]
      cases known : declared.find? name with
      | some input =>
          simp only [Option.bind_some, known]
          cases missing : isMissing vars literal <;> simp [fieldReaders, known, ih]
      | none => simp [fieldReaders, known]

/-- The reading of a declared field, if it is given and no missing variable. -/
def fieldReading (given : List (String × FieldReader)) (entry : Value × InputValue) :
    Option (Action Value) :=
  ((entry.1.string?.bind fun key => given.lookup key).filter (!·.missing)).map fun reader => do
    reader.read (← entry.2.type)

theorem readDeclared_congr {given other : List (String × FieldReader)}
    (entries : List (Value × InputValue))
    (alike : ∀ entry ∈ entries, fieldReading other entry = fieldReading given entry)
    (made : List (Value × Value)) :
    readDeclared other entries made = readDeclared given entries made := by
  induction entries generalizing made with
  | nil => rfl
  | cons entry rest ih =>
      obtain ⟨name, field⟩ := entry
      have tail := ih fun entry inside => alike entry (List.mem_cons_of_mem _ inside)
      have here := alike _ List.mem_cons_self
      unfold fieldReading at here
      unfold readDeclared
      simp only [tail]
      generalize (name.string?.bind fun key => other.lookup key).filter (!·.missing) = left at here ⊢
      generalize (name.string?.bind fun key => given.lookup key).filter (!·.missing) = right at here ⊢
      cases left with
      | none =>
        cases right with
        | none => rfl
        | some own => cases here
      | some reader =>
        cases right with
        | none => cases here
        | some own =>
          have reads := Option.some.inj here
          cases typed : field.type with
          | error fault => rfl
          | ok type =>
              rw [typed] at reads
              have same : reader.read type = own.read type := reads
              simp only [worked_bind rfl, same]

theorem fieldReading_reduced (fields : List (String × Literal)) (declared : Table InputValue)
    (distinct : (fields.map (·.1)).Nodup) (key : String) (input : InputValue)
    (known : declared.find? key = some input)
    (same : ∀ value type, fields.reverse.lookup key = some value → input.type = .ok type →
      readLiteral layout vars (reduced layout vars value (some type)) type
        = readLiteral layout vars value type) :
    fieldReading (fieldReaders layout vars
        (reducedFields layout vars fields (some declared))).reverse (.str key, input)
      = fieldReading (fieldReaders layout vars fields).reverse (.str key, input) := by
  simp only [fieldReading, Value.string?, Option.bind_some, lookup_fieldReaders,
    lookup_reducedFields fields distinct declared key input known]
  cases given : fields.reverse.lookup key with
  | none => rfl
  | some value =>
      cases missing : isMissing vars value with
      | true => simp [Option.filter_some, missing]
      | false =>
          simp only [missing, isMissing_reduced, Option.filter_some, Option.map_some,
            Bool.not_false, if_true, Option.some.injEq]
          cases typed : input.type with
          | error fault => rfl
          | ok type => exact same value type given typed

theorem readObject_reduced (fields : List (String × Literal)) (declared : Table InputValue)
    (distinct : (fields.map (·.1)).Nodup)
    (once : ∀ field ∈ fields, field.2.givesOnce = true)
    (each : ∀ field ∈ fields, ReadsReduced layout vars field.2)
    (bare : ∀ key input type value, (.str key, input) ∈ declared.entries → input.type = .ok type →
      fields.reverse.lookup key = some value → ConstantLeaves layout value type) :
    readObject (fieldReaders layout vars (reducedFields layout vars fields (some declared))) declared
      = readObject (fieldReaders layout vars fields) declared := by
  rw [readObject, readObject, any_reducedFields]
  split
  · rfl
  · refine readDeclared_congr _ ?_ []
    rintro ⟨name, input⟩ inside
    cases name with
    | str key =>
        refine fieldReading_reduced fields declared distinct key input
          (Value.lookup?_str_of_mem declared.distinct inside) fun value type given typed => ?_
        have written := mem_of_lookup_reverse given
        exact each _ written type (once _ written) (bare key input type value inside typed given)
    | _ => rfl

theorem readNamed_congr {literal other : Literal} {parts left : Parts} {id : TypeId}
    (leaf : (layout.kindOf id).isLeaf = false)
    (given : left.fields.isSome = parts.fields.isSome)
    (same : ∀ declared, (layout.definition id).body = .input (.ok declared) →
      left.fields.map (· id declared) = parts.fields.map (· id declared)) :
    readNamed layout vars other left id = readNamed layout vars literal parts id := by
  unfold readNamed
  unfold Layout.kindOf TypeDef.kind at leaf
  cases body : (layout.definition id).body with
  | scalar rule | enum values =>
      rw [body] at leaf
      cases leaf
  | input declared =>
      simp only
      cases written : left.fields with
      | none =>
        cases own : parts.fields with
        | none => rfl
        | some read =>
          rw [written, own] at given
          cases given
      | some reduced =>
        cases own : parts.fields with
        | none =>
          rw [written, own] at given
          cases given
        | some read =>
          cases declared with
          | error fault => rfl
          | ok table =>
              have reads := same table body
              rw [written, own] at reads
              exact Option.some.inj reads
  | _ => rfl

theorem readsReduced_list (start : Nat) (items : List Literal)
    (each : ∀ item ∈ items, ReadsReduced layout vars item) :
    ReadsReduced layout vars (.list start items) := by
  intro type once bare
  rw [reduced, readLiteral, readLiteral]
  induction type with
  | broken fault => rfl
  | nonNull of ih => exact ih fun part leaf position => bare part leaf (.nonNull position)
  | list of ih =>
      rw [readThrough, readThrough]
      cases present : of.present with
      | error fault => rfl
      | ok inner =>
          cases TypeRef.eq_of_present present
          exact readItems_reduced of present items once each
            (fun item inside part leaf position => bare part leaf (.item inside position)) []
  | named id =>
      cases leaf : (layout.kindOf id).isLeaf with
      | true => rw [reducedItems_of_isConstant items (bare _ id (.here rfl leaf) rfl)]
      | false =>
          simp only [readThrough, Literal.isNull, Bool.false_eq_true, if_false]
          exact readNamed_congr leaf rfl fun _ _ => rfl

theorem readsReduced_object (start : Nat) (fields : List (String × Literal))
    (each : ∀ field ∈ fields, ReadsReduced layout vars field.2) :
    ReadsReduced layout vars (.object start fields) := by
  intro type once bare
  obtain ⟨distinct, later⟩ := Bool.and_eq_true_iff.1 once
  rw [reduced, readLiteral, readLiteral]
  induction type with
  | broken fault => rfl
  | nonNull of ih => exact ih fun part leaf position => bare part leaf (.nonNull position)
  | list of ih =>
      have single := ih fun part leaf position => bare part leaf (.single (by simp) position)
      simp only [readThrough, Literal.isNull, Bool.false_eq_true, if_false]
      rw [← single]
      rfl
  | named id =>
      cases leaf : (layout.kindOf id).isLeaf with
      | true => rw [reducedFields_of_isConstant fields (bare _ id (.here rfl leaf) rfl)]
      | false =>
          simp only [readThrough, Literal.isNull, Bool.false_eq_true, if_false]
          refine readNamed_congr leaf rfl fun declared body => ?_
          have known : layout.fieldsOf? (.named id) = some declared := by
            simp only [Layout.fieldsOf?, TypeRef.innermost, body]
          simp only [Option.map_some, Option.bind_some, known, Option.some.injEq]
          exact readObject_reduced fields declared (of_decide_eq_true distinct)
            (Literal.mem_fieldsGiveOnce later) each
            fun key input type value inside typed given part leaf position =>
              bare part leaf (.field body inside typed given position)

mutual

/-- Every literal is read like what is left of it. -/
theorem readsReduced (literal : Literal) : ReadsReduced layout vars literal := by
  match literal with
  | .list start items => exact readsReduced_list start items (itemsReadReduced items)
  | .object start fields => exact readsReduced_object start fields (fieldsReadReduced fields)
  | .reference .. | .int .. | .float .. | .string .. | .boolean .. | .null .. | .enum .. =>
      exact fun _ _ _ => rfl

theorem itemsReadReduced (items : List Literal) :
    ∀ item ∈ items, ReadsReduced layout vars item := by
  match items with
  | [] =>
      intro item inside
      cases inside
  | item :: rest =>
      intro other inside
      rcases List.mem_cons.1 inside with same | later
      · rw [same]
        exact readsReduced item
      · exact itemsReadReduced rest other later

theorem fieldsReadReduced (fields : List (String × Literal)) :
    ∀ field ∈ fields, ReadsReduced layout vars field.2 := by
  match fields with
  | [] =>
      intro field inside
      cases inside
  | (name, literal) :: rest =>
      intro other inside
      rcases List.mem_cons.1 inside with rfl | later
      · exact readsReduced literal
      · exact fieldsReadReduced rest other later

end

section Arguments

variable {σ α β : Type} {answer : Call → σ → Reply × σ}

/-- Actions that ask the same and come to the same, or to response errors, which may differ. -/
def SameUpToErrors (answer : Call → σ → Reply × σ) (left right : Action α) : Prop :=
  ∀ state, (left.run answer state).2 = (right.run answer state).2
    ∧ ((left.run answer state).1 = (right.run answer state).1
      ∨ ∃ error other, (left.run answer state).1 = .error (.response error)
        ∧ (right.run answer state).1 = .error (.response other))

theorem sameUpToErrors_refl (action : Action α) : SameUpToErrors answer action action :=
  fun _ => ⟨rfl, .inl rfl⟩

theorem sameUpToErrors_refuse (node other : Nat) (name : Value) (problem changed : ArgumentProblem) :
    SameUpToErrors (α := α) answer (refuseArgument node name problem)
      (refuseArgument other name changed) :=
  fun _ => ⟨rfl, .inr ⟨_, _, rfl, rfl⟩⟩

theorem SameUpToErrors.bind {left right : Action α} {next other : α → Action β}
    (first : SameUpToErrors answer left right)
    (second : ∀ value, SameUpToErrors answer (next value) (other value)) :
    SameUpToErrors answer (left >>= next) (right >>= other) := by
  intro state
  obtain ⟨after, result⟩ := first state
  have whole : (left >>= next).run answer state = _ := Action.run_andThen answer left _ state
  have part : (right >>= other).run answer state = _ := Action.run_andThen answer right _ state
  rw [whole, part, ← after]
  rcases result with same | ⟨error, changed, failed, refused⟩
  · rw [← same]
    cases (left.run answer state).1 with
    | ok value => exact second value _
    | error failure => exact ⟨rfl, .inl rfl⟩
  · rw [failed, refused]
    exact ⟨rfl, .inr ⟨error, changed, rfl, rfl⟩⟩

theorem name_of_reducedArgument? {declared : Inputs} {node left : ArgumentNode}
    (kept : reducedArgument? layout vars declared node = some left) : left.name = node.name := by
  unfold reducedArgument? at kept
  split at kept
  · cases kept
  · cases kept
    rfl

theorem find?_reducedArguments (declared : Inputs) (nodes : List ArgumentNode)
    (distinct : (nodes.map (·.name)).Nodup) (name : Value) :
    ((reducedArguments layout vars declared nodes).find? fun found => name.equals (.str found.name))
      = (nodes.find? fun found => name.equals (.str found.name)).bind
        (reducedArgument? layout vars declared) := by
  induction nodes with
  | nil => rfl
  | cons node rest ih =>
      obtain ⟨fresh, later⟩ := List.nodup_cons.1 distinct
      have tail := ih later
      rw [reducedArguments] at tail ⊢
      rw [List.find?_cons, List.filterMap_cons]
      cases left : reducedArgument? layout vars declared node with
      | some kept =>
          rw [List.find?_cons, name_of_reducedArgument? left]
          cases same : name.equals (.str node.name) with
          | true => exact left.symm
          | false => exact tail
      | none =>
          cases same : name.equals (.str node.name) with
          | false => exact tail
          | true =>
              -- the name is given here, so it is not given later
              rw [tail, List.find?_eq_none.2]
              · exact left.symm
              · intro other inside again
                have twice := (Value.eq_of_equals_str again).symm.trans (Value.eq_of_equals_str same)
                exact fresh (List.mem_map.2 ⟨other, inside, Value.str.inj twice⟩)

theorem sameUpToErrors_omitted (argument : InputValue)
    {refuse other : TypeRef → Action (Option Value)}
    (same : ∀ type, SameUpToErrors answer (refuse type) (other type)) :
    SameUpToErrors answer (omitted argument refuse) (omitted argument other) := by
  unfold omitted
  split
  · exact sameUpToErrors_refl _
  · refine (sameUpToErrors_refl _).bind fun type => ?_
    split
    · exact same type
    · exact sameUpToErrors_refl _

theorem sameUpToErrors_readArgument (name : Value) (type : TypeRef) (literal : Literal)
    (once : literal.givesOnce = true) (bare : ConstantLeaves layout literal type) :
    SameUpToErrors answer (readArgument layout vars name type literal)
      (readArgument layout vars name type (reduced layout vars literal (some type))) := by
  let left := reduced layout vars literal (some type)
  have start : left.start = literal.start := (form_reduced literal (some type)).1
  have null : left.isNull = literal.isNull := (form_reduced literal (some type)).2.1
  have held : isNullVariable vars left = isNullVariable vars literal := by
    cases literal <;> rfl
  unfold readArgument
  rw [null, held, start, readsReduced literal type once bare]
  split
  · exact sameUpToErrors_refl _
  · refine (sameUpToErrors_refl _).bind fun value => ?_
    split
    · exact sameUpToErrors_refuse _ _ _ _ _
    · exact sameUpToErrors_refl _

/-- An argument is bound alike by a node and by what is left of it. -/
theorem sameUpToErrors_bindArgument (place : Nat) (given : List ArgumentNode)
    (distinct : (given.map (·.name)).Nodup) (once : ∀ node ∈ given, node.value.givesOnce = true)
    (declared : Table InputValue) (name : Value) (argument : InputValue)
    (inside : (name, argument) ∈ declared.entries)
    (bare : ∀ node ∈ given, ∀ type, name = .str node.name → argument.type = .ok type →
      ConstantLeaves layout node.value type) :
    SameUpToErrors answer (bindArgument layout vars place given name argument)
      (bindArgument layout vars place (reducedArguments layout vars (.ok declared) given) name
        argument) := by
  have apart : (given.reverse.map (·.name)).Nodup := by
    rw [List.map_reverse]
    exact List.nodup_reverse.2 distinct
  have found : (reducedArguments layout vars (.ok declared) given.reverse).find? _ = _ :=
    find?_reducedArguments (.ok declared) given.reverse apart name
  rw [reducedArguments, List.filterMap_reverse, ← reducedArguments] at found
  unfold bindArgument
  cases typed : argument.type with
  | error fault => exact sameUpToErrors_refl _
  | ok type =>
    rw [worked_bind rfl, worked_bind rfl, found]
    cases written : given.reverse.find? fun found => name.equals (.str found.name) with
    | none => exact sameUpToErrors_refl _
    | some node =>
      have same := List.find?_some written
      have named : name = .str node.name := Value.eq_of_equals_str same
      have member : node ∈ given := List.mem_reverse.1 (List.mem_of_find?_eq_some written)
      have known : declared.find? node.name = some argument :=
        Value.lookup?_str_of_mem declared.distinct (named ▸ inside)
      rw [Option.bind_some, reducedArgument?]
      cases missing : isMissing vars node.value with
      | true =>
          rw [isMissing_eq] at missing
          obtain ⟨variable_, unset⟩ := Option.isSome_iff_exists.1 missing
          simp only [unset, if_true]
          refine sameUpToErrors_omitted argument fun type => ?_
          exact (sameUpToErrors_refl _).bind fun _ => sameUpToErrors_refuse _ _ _ _ _
      | false =>
          have held : isMissing vars (reduced layout vars node.value (some type)) = _ :=
            isMissing_reduced node.value (some type)
          rw [missing, isMissing_eq] at held
          rw [isMissing_eq] at missing
          rw [if_neg Bool.false_ne_true]
          simp only [Except.toOption, Option.bind_some, known, typed,
            Option.not_isSome_iff_eq_none.1 (Bool.eq_false_iff.1 missing),
            Option.not_isSome_iff_eq_none.1 (Bool.eq_false_iff.1 held)]
          exact sameUpToErrors_readArgument name type node.value (once node member)
            (bare node member type named typed)

theorem sameUpToErrors_bindArguments (place : Nat) (given : List ArgumentNode)
    (distinct : (given.map (·.name)).Nodup) (once : ∀ node ∈ given, node.value.givesOnce = true)
    (declared : Table InputValue)
    (bare : ∀ node ∈ given, ∀ argument type, (.str node.name, argument) ∈ declared.entries →
      argument.type = .ok type → ConstantLeaves layout node.value type)
    (entries : List (Value × InputValue)) (part : ∀ entry ∈ entries, entry ∈ declared.entries) :
    SameUpToErrors answer (bindArguments layout vars place given entries)
      (bindArguments layout vars place (reducedArguments layout vars (.ok declared) given)
        entries) := by
  induction entries with
  | nil => exact sameUpToErrors_refl _
  | cons entry rest ih =>
      obtain ⟨name, argument⟩ := entry
      have inside := part _ List.mem_cons_self
      have tail := ih fun other later => part other (List.mem_cons_of_mem _ later)
      unfold bindArguments
      refine SameUpToErrors.bind ?_ fun bound => ?_
      · refine sameUpToErrors_bindArgument place given distinct once declared name argument inside ?_
        intro node member type named typed
        exact bare node member argument type (named ▸ inside) typed
      · cases bound with
        | none => exact tail
        | some value => exact tail.bind fun _ => sameUpToErrors_refl _

theorem part_of_leafPosition {literal part : Literal} {type : TypeRef} {leaf : TypeId}
    (position : LeafPosition layout literal type part leaf)
    (noList : ∀ start items, literal ≠ .list start items)
    (noObject : ∀ start fields, literal ≠ .object start fields) : part = literal := by
  induction position with
  | here => rfl
  | nonNull _ ih => exact ih noList noObject
  | single _ _ ih => exact ih noList noObject
  | item => exact (noList _ _ rfl).elim
  | field => exact (noObject _ _ rfl).elim

theorem constantLeaves_of_simple {literal : Literal}
    (noList : ∀ start items, literal ≠ .list start items)
    (noObject : ∀ start fields, literal ≠ .object start fields) (type : TypeRef) :
    ConstantLeaves layout literal type := by
  intro part leaf position set
  rw [part_of_leafPosition position noList noObject] at set ⊢
  cases literal with
  | reference => cases set
  | list start items => exact (noList start items rfl).elim
  | object start fields => exact (noObject start fields rfl).elim
  | _ => rfl

/-- A variable without a value means omission. A node whose arguments and object fields are given once
each, and where no list or object with a variable in it is read as a leaf, binds to the same
arguments as what is left of it, or both are refused with a response error, or both fail alike with
what is none. -/
theorem missing_variables_are_omitted (layout : Layout) (vars : Variables) (place : Nat)
    (given : List ArgumentNode) (declared : Inputs) (distinct : (given.map (·.name)).Nodup)
    (once : ∀ node ∈ given, node.value.givesOnce = true)
    (bare : ∀ table, declared = .ok table → ∀ node ∈ given, ∀ argument type,
      (.str node.name, argument) ∈ table.entries → argument.type = .ok type →
        ConstantLeaves layout node.value type) (state : σ) :
    let whole := (arguments layout vars place given declared).run answer state
    let left := (arguments layout vars place (reducedArguments layout vars declared given)
      declared).run answer state
    whole.2 = left.2
      ∧ (whole.1 = left.1
        ∨ ∃ error other, whole.1 = .error (.response error) ∧ left.1 = .error (.response other)) := by
  cases declared with
  | error fault => exact ⟨rfl, .inl rfl⟩
  | ok table =>
      exact sameUpToErrors_bindArguments place given distinct once table (bare table rfl)
        table.entries (fun _ inside => inside) state

/-- Points and a number, which has a default. -/
def areaArguments : Table InputValue :=
  .ofList [(.str "area", ⟨.str "area", .ok (.list (.named (.declared 1))), .undefined⟩),
    (.str "unit", ⟨.str "unit", .ok (.nonNull (.named (.standard .int))), .int 1⟩)]

/-- Two points, of which a coordinate, the other point and the number are variables. -/
def areaNodes : List ArgumentNode :=
  [⟨0, "area", .list 0 [.object 0 [("x", .int 0 "1"), ("y", .reference 0 "m")], .reference 0 "m"]⟩,
    ⟨0, "unit", .reference 0 "m"⟩]

def boundArea : List (Value × Value) :=
  [(.str "area", .list [.map [(.str "x", .int 1), (.str "y", .int 0)], .null]),
    (.str "unit", .int 1)]

theorem entries_areaArguments :
    areaArguments.entries
      = [(.str "area", ⟨.str "area", .ok (.list (.named (.declared 1))), .undefined⟩),
        (.str "unit", ⟨.str "unit", .ok (.nonNull (.named (.standard .int))), .int 1⟩)] := by
  cbv

theorem constantLeaves_area :
    ConstantLeaves Schema.taking.toLayout
      (.list 0 [.object 0 [("x", .int 0 "1"), ("y", .reference 0 "m")], .reference 0 "m"])
      (.list (.named (.declared 1))) := by
  intro part leaf position set
  cases position with
  | single noList => exact (noList _ _ rfl).elim
  | item inside position =>
      rcases List.mem_cons.1 inside with rfl | inside
      · cases position with
        | here _ leaf => cases leaf
        | field _ _ _ given position =>
            have written := mem_of_lookup_reverse given
            simp only [List.mem_cons, Prod.mk.injEq, List.not_mem_nil, or_false] at written
            refine constantLeaves_of_simple ?_ ?_ _ part leaf position set
            all_goals rcases written with ⟨_, rfl⟩ | ⟨_, rfl⟩ <;> simp
      · rw [List.mem_singleton.1 inside] at position
        exact constantLeaves_of_simple (by simp) (by simp) _ part leaf position set

theorem bareArea (table : Table InputValue) (same : (.ok areaArguments : Inputs) = .ok table)
    (node : ArgumentNode) (inside : node ∈ areaNodes) (argument : InputValue) (type : TypeRef)
    (member : (.str node.name, argument) ∈ table.entries) (typed : argument.type = .ok type) :
    ConstantLeaves Schema.taking.toLayout node.value type := by
  cases same
  rw [entries_areaArguments] at member
  rcases List.mem_cons.1 inside with rfl | inside
  · rcases List.mem_cons.1 member with here | later
    · cases here
      cases typed
      exact constantLeaves_area
    · simp at later
  · rw [List.mem_singleton.1 inside]
    exact constantLeaves_of_simple (by simp) (by simp) type

/-- Where a coordinate, a point and a number are left out, the defaults and null are bound. -/
theorem area_without_missing_variables :
    reducedArguments Schema.taking.toLayout [] (.ok areaArguments) areaNodes
        = [⟨0, "area", .list 0 [.object 0 [("x", .int 0 "1")], .null 0]⟩]
      ∧ ((arguments Schema.taking.toLayout [] 0 areaNodes (.ok areaArguments)).run Schema.answerOne ()).1
        = .ok boundArea
      ∧ ((arguments Schema.taking.toLayout [] 0
          [⟨0, "area", .list 0 [.object 0 [("x", .int 0 "1")], .null 0]⟩] (.ok areaArguments)).run
            Schema.answerOne ()).1 = .ok boundArea := by
  have left : reducedArguments Schema.taking.toLayout [] (.ok areaArguments) areaNodes
      = [⟨0, "area", .list 0 [.object 0 [("x", .int 0 "1")], .null 0]⟩] := by
    cbv
  have bound : ((arguments Schema.taking.toLayout [] 0 areaNodes (.ok areaArguments)).run
      Schema.answerOne ()).1 = .ok boundArea := by
    cbv
  obtain ⟨-, same⟩ := @missing_variables_are_omitted Unit Schema.answerOne Schema.taking.toLayout
    [] 0 areaNodes (.ok areaArguments) (by decide) (by decide) bareArea ()
  rw [left, bound] at same
  refine ⟨left, bound, ?_⟩
  rcases same with same | ⟨error, _, failed, _⟩
  · exact same.symm
  · cases failed

def tokenTable : Table InputValue := .ofList [(.str "token", .token)]

def fiveNodes : List ArgumentNode := [⟨0, "token", .int 0 "5"⟩]

/-- An application that knows no token. -/
def answerUnknown (_ : Call) (state : Unit) : Reply × Unit :=
  (.error (.thrown ⟨.key, some "5", none, [], 0⟩), state)

def fiveBound : Except Failure (List (Value × Value)) :=
  ((arguments Schema.taking.toLayout [] 0 fiveNodes (.ok tokenTable)).run answerUnknown ()).1

/-- A leaf type may fail with what is neither a rejection nor a response error. Then nothing is bound
and no response error is raised, though nothing is missing. -/
theorem unknown_token_is_no_response_error :
    (∀ node ∈ fiveNodes, ∀ type, ConstantLeaves Schema.taking.toLayout node.value type)
      ∧ reducedArguments Schema.taking.toLayout [] (.ok tokenTable) fiveNodes = fiveNodes
      ∧ ¬((∃ bound, fiveBound = .ok bound) ∨ ∃ error, fiveBound = .error (.response error)) := by
  refine ⟨fun node inside type => ?_, by cbv, ?_⟩
  · rw [List.mem_singleton.1 inside]
    exact constantLeaves_of_simple (by simp) (by simp) type
  · have failed : fiveBound = .error (.thrown ⟨.key, some "5", none, [], 0⟩) := by
      cbv
    rw [failed]
    rintro (⟨bound, ⟨⟩⟩ | ⟨error, ⟨⟩⟩)

end Arguments

end Input

end GraphQL
