import GraphQL.Proofs.Coercing
import GraphQL.Proofs.Names

/-!
Coercing a runtime value is exact: it comes to a value just if the input type takes what it is given, and
to an error otherwise, whose path leads from the top of the value to the part that it blames.
-/

namespace GraphQL

namespace Input

variable {σ : Type} {answer : Call → σ → Reply × σ} {layout : Layout} {known : TypeId → Prop}
  {of : TypeRef} {inner : TypeId} {value : Value}

section Lists

variable {items results : List Value} {state after : σ}

/-- Items are taken by a type one after the other, and become the results. -/
structure AllTaken (answer : Call → σ → Reply × σ) (layout : Layout) (of : TypeRef)
    (items : List Value) (state : σ) (results : List Value) (after : σ) : Prop where
  valid : AllValid answer layout of items state after
  only : ∀ last, AllValid answer layout of items state last → last = after
  conform : ∀ result ∈ results, Conforms answer layout of result
  become : AllBecome answer layout of items results

theorem allTaken_nil (of : TypeRef) (state : σ) : AllTaken answer layout of [] state [] state := by
  refine ⟨.nil, fun last valid => ?_, fun result inside => ?_, .nil⟩
  · cases valid
    rfl
  · cases inside

theorem Taken.cons {item result : Value} {middle : σ}
    (first : Taken answer layout of item state result middle)
    (others : AllTaken answer layout of items middle results after) :
    AllTaken answer layout of (item :: items) state (result :: results) after := by
  refine ⟨.cons first.valid others.valid, fun last valid => ?_, fun result inside => ?_,
    .cons first.becomes others.become⟩
  · cases valid with
    | cons head tail =>
        cases first.only _ head
        exact others.only last tail
  · rcases List.mem_cons.1 inside with rfl | later
    · exact first.conforms
    · exact others.conform result later

/-- An action tells whether items are taken, the first of which has the given index. Where they are not, a
part of one of them is blamed. -/
def DecidesItems (answer : Call → σ → Reply × σ) (layout : Layout) (of : TypeRef)
    (items : List Value) (index : Int) (path : List PathKey) (action : Action (List Value)) : Prop :=
  ∀ state, (∃ results after, action.run answer state = (.ok results, after)
      ∧ AllTaken answer layout of items state results after)
    ∨ ∃ fault, (action.run answer state).1 = .error (.input fault)
      ∧ (∀ after, ¬ AllValid answer layout of items state after)
      ∧ ∃ position item rest, fault.path = path ++ .index (index + (position : Nat)) :: rest
        ∧ items[position]? = some item ∧ item.follow rest = some fault.value

theorem DecidesItems.cons {item : Value} {index : Int} {path : List PathKey} {action : Action Value}
    {others : Action (List Value)}
    (head : Decides answer layout of item (path ++ [.index index]) action)
    (tail : DecidesItems answer layout of items (index + 1) path others) :
    DecidesItems answer layout of (item :: items) index path
      (do let result ← action; return result :: (← others)) := by
  intro state
  rcases head state with ⟨result, middle, ran, taken⟩ | ⟨fault, failed, blamed⟩
  · rw [Action.run_bind_ok ran]
    rcases tail middle with ⟨results, after, ran, rest⟩
      | ⟨fault, failed, never, position, part, way, located, found, follows⟩
    · rw [Action.run_bind_ok ran]
      exact .inl ⟨result :: results, after, rfl, taken.cons rest⟩
    · -- the first item is taken in one way only, so the others begin in the state that it leaves
      refine .inr ⟨fault, Action.run_bind_error failed, fun after valid => ?_, position + 1, part, way,
        ?_, found, follows⟩
      · cases valid with
        | cons first rest =>
            cases taken.only _ first
            exact never after rest
      · rw [located, Int.add_assoc, Int.add_comm 1, Int.natCast_add, Int.natCast_one]
  · obtain ⟨way, located, follows⟩ := blamed.located
    refine .inr ⟨fault, Action.run_bind_error failed, fun after valid => ?_, 0, item, way, ?_, rfl,
      follows⟩
    · cases valid with
      | cons first rest => exact blamed.invalid _ first
    · rw [located, List.append_assoc, Int.natCast_zero, Int.add_zero]
      rfl

theorem decides_items (leads : of.innermost = .ok inner) (member : known inner)
    (items : List Value) (each : ∀ item ∈ items, DecidesAll answer layout known item)
    (whole : ∀ item ∈ items, ¬ Splits layout of item) (index : Int) (path : List PathKey) :
    DecidesItems answer layout of items index path
      (coerceEach (items.map (coerce layout)) index of path) := by
  induction items generalizing index with
  | nil => exact fun state => .inl ⟨[], state, rfl, allTaken_nil of state⟩
  | cons item rest ih =>
      have head := each item List.mem_cons_self of inner (path ++ [.index index]) leads member
        (whole item List.mem_cons_self)
      have tail := ih (fun other inside => each other (List.mem_cons_of_mem _ inside))
        (fun other inside => whole other (List.mem_cons_of_mem _ inside)) (index + 1)
      exact .cons head tail

theorem allValid_of_valid (sequence : value.sequence? = some items)
    (valid : Valid answer layout (.list of) value state after) :
    AllValid answer layout of items state after := by
  cases valid with
  | null => cases sequence
  | list again valid =>
      cases sequence.symm.trans again
      exact valid
  | single _ single =>
      rw [single] at sequence
      cases sequence

theorem decides_sequence (sequence : value.sequence? = some items)
    (each : ∀ item ∈ items, DecidesAll answer layout known item) (leads : of.innermost = .ok inner)
    (member : known inner) (whole : ¬ Splits layout (.list of) value) (path : List PathKey) :
    Decides answer layout (.list of) value path
      (do return .list (← coerceEach (items.map (coerce layout)) 0 of path)) := by
  intro state
  rcases decides_items leads member items each
      (fun item inside splits => whole (.item sequence inside splits)) 0 path state with
    ⟨results, after, ran, taken⟩
      | ⟨fault, failed, never, position, item, rest, located, found, follows⟩
  · exact .inl ⟨.list results, after, Action.run_bind_ok ran, .list sequence taken.valid,
      fun last valid => taken.only last (allValid_of_valid sequence valid),
      .list rfl taken.conform, .list sequence taken.become, fun _ => by rintro ⟨⟩⟩
  · refine .inr ⟨fault, Action.run_bind_error failed,
      fun after valid => never after (allValid_of_valid sequence valid), _, located, ?_⟩
    rw [Int.zero_add, Value.follow_index sequence found, follows]

end Lists

section Objects

variable {id : TypeId} {declared : Table InputValue} {given : List (Value × Value)}

/-- The entries of a map are taken by declared fields one after the other, and become the rest of an
object. -/
structure FieldsTaken (answer : Call → σ → Reply × σ) (layout : Layout)
    (declared : List (Value × InputValue)) (given : List (Value × Value)) (state : σ)
    (made : List (Value × Value)) (after : σ) : Prop where
  valid : FieldsValid answer layout declared given state after
  only : ∀ last, FieldsValid answer layout declared given state last → last = after
  conform : FieldsConform answer layout declared made
  become : FieldsBecome answer layout declared given made

variable {rest : List (Value × InputValue)} {name : Value} {input : InputValue} {type : TypeRef}
  {made : List (Value × Value)}

theorem fieldsTaken_nil (given : List (Value × Value)) (state : σ) :
    FieldsTaken answer layout [] given state [] state := by
  refine ⟨.nil, fun last valid => ?_, .nil, .nil⟩
  cases valid
  rfl

/-- An action tells whether declared fields take what a map gives for them, and adds what it becomes to
what is made. Where they do not, a part of the map is blamed. -/
def DecidesFields (answer : Call → σ → Reply × σ) (layout : Layout)
    (declared : List (Value × InputValue)) (given : List (Value × Value)) (path : List PathKey)
    (made : List (Value × Value)) (action : Action (List (Value × Value))) : Prop :=
  ∀ state, (∃ others after, action.run answer state = (.ok (made ++ others), after)
      ∧ FieldsTaken answer layout declared given state others after)
    ∨ ∃ fault, (action.run answer state).1 = .error (.input fault)
      ∧ (∀ after, ¬ FieldsValid answer layout declared given state after)
      ∧ ∃ rest, fault.path = path ++ rest ∧ (Value.map given).follow rest = some fault.value

section Steps

variable {key : String} {path : List PathKey}

theorem decidesFields_given {item : Value} {action : Action Value}
    {others : Value → Action (List (Value × Value))}
    (looked : Value.lookup? given (.str key) = some item) (typed : input.type = .ok type)
    (head : Decides answer layout type item (path ++ [.name key]) action)
    (tail : ∀ result, DecidesFields answer layout rest given path (made ++ [(.str key, result)])
      (others result)) :
    DecidesFields answer layout ((.str key, input) :: rest) given path made (action >>= others) := by
  have valid_of : ∀ {state after}, FieldsValid answer layout ((.str key, input) :: rest) given state
      after → ∃ middle, Valid answer layout type item state middle
        ∧ FieldsValid answer layout rest given middle after := by
    intro state after valid
    cases valid with
    | given again typed' first others =>
        cases looked.symm.trans again
        cases typed.symm.trans typed'
        exact ⟨_, first, others⟩
    | omitted missing =>
        rw [looked] at missing
        cases missing
  intro state
  rcases head state with ⟨result, middle, ran, taken⟩ | ⟨fault, failed, blamed⟩
  · rw [Action.run_bind_ok ran]
    rcases tail result middle with ⟨others, after, ran, fields⟩ | ⟨fault, failed, never, located⟩
    · rw [List.append_assoc] at ran
      refine .inl ⟨(.str key, result) :: others, after, ran, .given looked typed taken.valid fields.valid,
        fun last valid => ?_, .present typed taken.conforms fields.conform,
        .given looked typed taken.becomes fields.become⟩
      obtain ⟨_, first, others⟩ := valid_of valid
      cases taken.only _ first
      exact fields.only last others
    · refine .inr ⟨fault, failed, fun after valid => ?_, located⟩
      obtain ⟨_, first, others⟩ := valid_of valid
      cases taken.only _ first
      exact never after others
  · obtain ⟨way, located, follows⟩ := blamed.located
    refine .inr ⟨fault, Action.run_bind_error failed, fun after valid => ?_, .name key :: way, ?_, ?_⟩
    · obtain ⟨_, first, _⟩ := valid_of valid
      exact blamed.invalid _ first
    · rw [located, List.append_assoc]
      rfl
    · rw [Value.follow_name looked, follows]

theorem valid_of_omitted {state after : σ} (missing : Value.lookup? given name = none)
    (valid : FieldsValid answer layout ((name, input) :: rest) given state after) :
    (input.hasDefault = true ∨ ∃ type, input.type = .ok type ∧ type.isNonNull = false)
      ∧ FieldsValid answer layout rest given state after := by
  cases valid with
  | given looked =>
      rw [looked] at missing
      cases missing
  | omitted _ optional tail => exact ⟨optional, tail⟩

variable {action : Action (List (Value × Value))}

theorem decidesFields_preset (missing : Value.lookup? given name = none)
    (preset : input.hasDefault = true) (typed : input.type = .ok type)
    (conforms : Conforms answer layout type input.default)
    (tail : DecidesFields answer layout rest given path (made ++ [(name, input.default)]) action) :
    DecidesFields answer layout ((name, input) :: rest) given path made action := by
  intro state
  rcases tail state with ⟨others, after, ran, fields⟩ | ⟨fault, failed, never, located⟩
  · rw [List.append_assoc] at ran
    exact .inl ⟨(name, input.default) :: others, after, ran, .omitted missing (.inl preset) fields.valid,
      fun last valid => fields.only last (valid_of_omitted missing valid).2,
      .present typed conforms fields.conform, .preset missing preset fields.become⟩
  · exact .inr ⟨fault, failed, fun after valid => never after (valid_of_omitted missing valid).2,
      located⟩

theorem decidesFields_absent (missing : Value.lookup? given name = none)
    (bare : input.hasDefault = false) (typed : input.type = .ok type)
    (nullable : type.isNonNull = false)
    (tail : DecidesFields answer layout rest given path made action) :
    DecidesFields answer layout ((name, input) :: rest) given path made action := by
  intro state
  rcases tail state with ⟨others, after, ran, fields⟩ | ⟨fault, failed, never, located⟩
  · exact .inl ⟨others, after, ran, .omitted missing (.inr ⟨type, typed, nullable⟩) fields.valid,
      fun last valid => fields.only last (valid_of_omitted missing valid).2,
      .absent bare typed nullable fields.conform, .absent missing bare fields.become⟩
  · exact .inr ⟨fault, failed, fun after valid => never after (valid_of_omitted missing valid).2,
      located⟩

theorem decidesFields_missing (missing : Value.lookup? given name = none)
    (bare : input.hasDefault = false) (typed : input.type = .ok type)
    (required : type.isNonNull = true) (problem : InputProblem) :
    DecidesFields answer layout ((name, input) :: rest) given path made
      (invalid problem path (.map given)) := by
  refine fun state => .inr ⟨_, rfl, fun after valid => ?_, [], (List.append_nil path).symm, rfl⟩
  rcases (valid_of_omitted missing valid).1 with preset | ⟨other, typed', nullable⟩
  · rw [bare] at preset
    cases preset
  · cases typed.symm.trans typed'
    rw [required] at nullable
    cases nullable

end Steps

theorem decides_declared (types : InputTypes layout known)
    (each : ∀ entry ∈ given, DecidesAll answer layout known entry.2) (path : List PathKey)
    (declared : List (Value × InputValue))
    (entries : ∀ entry ∈ declared, InputValue.Declares known entry.2)
    (texts : Value.UnderTexts declared)
    (presets : ∀ entry ∈ declared, DefaultConforms answer layout entry.2)
    (whole : ∀ entry ∈ declared, ∀ type item, entry.2.type = .ok type →
      Value.lookup? given entry.1 = some item → ¬ Splits layout type item)
    (made : List (Value × Value)) :
    DecidesFields answer layout declared given path made
      (coerceDeclared layout (.map given) (entryCoercions layout given) path declared made) := by
  -- By induction on the declared fields, which are gone through in their order.
  induction declared generalizing made with
  | nil => exact fun state => .inl ⟨[], state, by rw [List.append_nil]; rfl, fieldsTaken_nil given state⟩
  | cons entry rest ih =>
      obtain ⟨name, input⟩ := entry
      obtain ⟨key, rfl⟩ := texts _ List.mem_cons_self
      obtain ⟨type, inner, typed, leads, member⟩ := entries _ List.mem_cons_self
      have tail := ih (fun other inside => entries other (List.mem_cons_of_mem _ inside))
        (fun other inside => texts other (List.mem_cons_of_mem _ inside))
        (fun other inside => presets other (List.mem_cons_of_mem _ inside))
        (fun other inside => whole other (List.mem_cons_of_mem _ inside))
      rw [coerceDeclared, lookup?_entryCoercions]
      cases looked : Value.lookup? given (.str key) with
      | some item =>
          obtain ⟨held, inside, rfl⟩ := mem_of_lookup? _ _ _ looked
          simp only [Option.map_some, worked_bind typed]
          exact decidesFields_given looked typed
            (each held inside type inner _ leads member (whole _ List.mem_cons_self type _ typed looked))
            fun result => tail _
      | none =>
          simp only [Option.map_none]
          cases preset : input.hasDefault with
          | true =>
              exact decidesFields_preset looked preset typed
                (presets _ List.mem_cons_self preset type typed) (tail _)
          | false =>
              rw [if_neg Bool.false_ne_true, worked_bind typed]
              cases nullable : type.isNonNull with
              | false => exact decidesFields_absent looked preset typed nullable (tail _)
              | true =>
                  obtain ⟨text, written⟩ := types.text type inner leads member
                  rw [if_pos rfl, written]
                  exact decidesFields_missing looked preset typed nullable _

theorem valid_object {state after : σ} (body : (layout.definition id).body = .input (.ok declared))
    (valid : Valid answer layout (.named id) (.map given) state after) :
    FieldsValid answer layout declared.entries given state after
      ∧ ∀ entry ∈ given, declared.contains entry.1 = true := by
  cases valid with
  | object again fields all =>
      cases body.symm.trans again
      exact ⟨fields, all⟩
  | leaf leaf =>
      simp only [Layout.kindOf, TypeDef.kind, body] at leaf
      cases leaf

/-- A type with fields takes a map that gives the fields what they take, and nothing else. -/
theorem decides_object (types : TextInputTypes layout known)
    (defaults : DefaultsConform answer layout known) (raw : Value.entriesRaw given = true)
    (each : ∀ entry ∈ given, DecidesAll answer layout known entry.2) (member : known id)
    (body : (layout.definition id).body = .input (.ok declared))
    (entries : ∀ entry ∈ declared.entries, InputValue.Declares known entry.2)
    (whole : ¬ Splits layout (.named id) (.map given)) (path : List PathKey) :
    Decides answer layout (.named id) (.map given) path
      (coerceObject layout (.map given) (entryCoercions layout given) id declared path) := by
  intro state
  rw [coerceObject]
  rcases decides_declared types.toInputTypes each path declared.entries entries
      (types.texts id declared member body) (defaults id declared member body)
      (fun entry inside type item typed looked splits =>
        whole (.field body inside typed looked splits)) [] state with
    ⟨made, after, ran, fields⟩ | ⟨fault, failed, never, located⟩
  · rw [Action.run_bind_ok ran, keys_entryCoercions]
    -- keys that are not declared are looked for last, when all fields have been taken
    by_cases all : ∀ entry ∈ given, declared.contains entry.1 = true
    · rw [refuseUnknown_of_declared _ _ _ _ _ fun key inside => by
        obtain ⟨entry, there, rfl⟩ := List.mem_map.1 inside
        exact all entry there]
      exact .inl ⟨.map made, after, rfl, .object body fields.valid all,
        fun last valid => fields.only last (valid_object body valid).1, .object body fields.conform,
        .object body fields.become, fun _ => by rintro ⟨⟩⟩
    · have unknown : ∃ key ∈ given.map (·.1), declared.contains key = false := by
        simp only [not_forall] at all
        obtain ⟨entry, inside, absent⟩ := all
        exact ⟨entry.1, List.mem_map_of_mem inside, by simpa using absent⟩
      have texts : ∀ key ∈ given.map (·.1), ∃ text, key.text = .ok text := by
        intro key inside
        obtain ⟨entry, there, rfl⟩ := List.mem_map.1 inside
        exact Value.text_of_isRaw (Value.keys_isRaw raw entry there)
      obtain ⟨problem, same⟩ := refuseUnknown_of_undeclared (layout.label id) declared path
        (.map given) _ texts unknown
      rw [same]
      exact .inr ⟨_, rfl, fun last valid => all (valid_object body valid).2, [],
        (List.append_nil path).symm, rfl⟩
  · exact .inr ⟨fault, Action.run_bind_error failed,
      fun after valid => never after (valid_object body valid).1, located⟩

end Objects

/-- The parts of a value tell by which types the value is taken. -/
structure PartsDecide (answer : Call → σ → Reply × σ) (layout : Layout) (known : TypeId → Prop)
    (value : Value) (parts : ValueParts) : Prop where
  items : ∀ coerce, parts.items = some coerce → ∀ of inner path, of.innermost = .ok inner →
    known inner → ¬ Splits layout (.list of) value →
    Decides answer layout (.list of) value path (coerce of path)
  single : parts.items = none → value.sequence? = none
  fields : ∀ coerce, parts.fields = some coerce → ∀ id declared path, known id →
    (layout.definition id).body = .input (.ok declared) →
    (∀ entry ∈ declared.entries, InputValue.Declares known entry.2) →
    ¬ Splits layout (.named id) value →
    Decides answer layout (.named id) value path (coerce id declared path)
  noMap : parts.fields = none → ∀ given, value ≠ .map given

variable {parts : ValueParts}

theorem decides_named (types : TextInputTypes layout known)
    (takes : LeavesTake answer layout known) (raw : value.isRaw = true) (some_ : value ≠ .null)
    (decide : PartsDecide answer layout known value parts) (id : TypeId) (member : known id)
    (whole : ¬ Splits layout (.named id) value) (path : List PathKey) :
    Decides answer layout (.named id) value path (coerceNamed layout value parts id path) := by
  rcases types.shape id member with leaf | ⟨declared, body, entries⟩
  · rw [coerceNamed_leaf leaf]
    exact decides_leaf takes member leaf raw some_ path
  · rw [coerceNamed, body]
    cases fields : parts.fields with
    | some coerce => exact decide.fields coerce fields id declared path member body entries whole
    | none =>
        refine decides_invalid _ path fun state after valid => ?_
        cases valid with
        | null => exact some_ rfl
        | object => exact decide.noMap fields _ rfl
        | leaf leaf =>
            simp only [Layout.kindOf, TypeDef.kind, body] at leaf
            cases leaf

theorem decides_through (types : TextInputTypes layout known)
    (takes : LeavesTake answer layout known) (raw : value.isRaw = true)
    (decide : PartsDecide answer layout known value parts) (type : TypeRef) (inner : TypeId)
    (leads : type.innermost = .ok inner) (member : known inner)
    (whole : ¬ Splits layout type value) (path : List PathKey) :
    Decides answer layout type value path (coerceThrough layout value parts type path) := by
  have null_or : value = .null ∨ value ≠ .null ∧ value.isNull = false := by
    cases value <;> simp [Value.isNull]
  induction type with
  | nonNull of ih =>
      rw [coerceThrough]
      rcases null_or with rfl | ⟨some_, present⟩
      · obtain ⟨text, written⟩ := types.text (.nonNull of) inner leads member
        rw [Value.isNull, if_pos rfl, written]
        refine decides_invalid _ path fun state after valid => ?_
        cases valid with
        | null nullable => cases nullable
        | nonNull some_ => exact some_ rfl
      · rw [present, if_neg Bool.false_ne_true]
        exact decides_nonNull some_ (ih leads fun splits => whole (.nonNull splits))
  | list of ih =>
      rw [coerceThrough]
      rcases null_or with rfl | ⟨some_, present⟩
      · exact decides_null rfl
      · rw [present, if_neg Bool.false_ne_true]
        cases items : parts.items with
        | some coerce =>
            have inside : of.innermost = .ok inner := leads
            simp only [worked_bind (TypeRef.present_of_innermost inside)]
            exact decide.items coerce items of inner path leads member whole
        | none =>
            have single := decide.single items
            exact decides_single some_ single (ih leads fun splits => whole (.single single splits))
  | named id =>
      cases leads
      rw [coerceThrough]
      rcases null_or with rfl | ⟨some_, present⟩
      · exact decides_null rfl
      · rw [present, if_neg Bool.false_ne_true]
        exact decides_named types takes raw some_ decide inner member whole path
  | broken fault => cases leads

theorem itemCoercions_eq_map (items : List Value) :
    itemCoercions layout items = items.map (coerce layout) := by
  induction items with
  | nil => rfl
  | cons item rest ih => rw [itemCoercions, ih, List.map_cons]

theorem partsDecide_sequence {items : List Value} (sequence : value.sequence? = some items)
    (each : ∀ item ∈ items, DecidesAll answer layout known item) :
    PartsDecide answer layout known value (listOf (itemCoercions layout items)) := by
  rw [itemCoercions_eq_map]
  refine ⟨?_, (by rintro ⟨⟩), (by rintro _ ⟨⟩), ?_⟩
  · rintro _ ⟨⟩ of inner path leads member whole
    exact decides_sequence sequence each leads member whole path
  · rintro _ given rfl
    cases sequence

theorem partsDecide_map (types : TextInputTypes layout known)
    (defaults : DefaultsConform answer layout known) {given : List (Value × Value)}
    (raw : Value.entriesRaw given = true)
    (each : ∀ entry ∈ given, DecidesAll answer layout known entry.2) :
    PartsDecide answer layout known (.map given)
      { fields := some (coerceObject layout (.map given) (entryCoercions layout given)) } := by
  refine ⟨(by rintro _ ⟨⟩), fun _ => rfl, ?_, (by rintro ⟨⟩)⟩
  rintro _ ⟨⟩ id declared path member body entries whole
  exact decides_object types defaults raw each member body entries whole path

theorem partsDecide_atom (single : value.sequence? = none) (plain : ∀ given, value ≠ .map given) :
    PartsDecide answer layout known value {} :=
  ⟨(by rintro _ ⟨⟩), fun _ => single, (by rintro _ ⟨⟩), fun _ => plain⟩

/-- Bytes are no list: only where a list is expected are they taken for one. -/
theorem partsDecide_bytes (content : List UInt8) (coercions : List Coercion) :
    PartsDecide answer layout known (.bytes content) (listOf coercions) :=
  ⟨fun _ _ _ _ _ _ _ whole => (whole .here).elim, fun _ => rfl, (by rintro _ ⟨⟩),
    fun _ _ => by rintro ⟨⟩⟩

mutual

theorem decidesAll (types : TextInputTypes layout known) (takes : LeavesTake answer layout known)
    (defaults : DefaultsConform answer layout known) (value : Value) (raw : value.isRaw = true) :
    DecidesAll answer layout known value := by
  -- By recursion on the value: its coercion decides, as those of its parts do.
  match value with
  | .list items | .growing _ items | .tuple items =>
      intro type inner path leads member whole
      rw [coerce]
      exact decides_through types takes raw
        (partsDecide_sequence rfl (itemsDecide types takes defaults items raw)) type inner leads
        member whole path
  | .map given =>
      intro type inner path leads member whole
      rw [coerce]
      exact decides_through types takes raw
        (partsDecide_map types defaults raw (entriesDecide types takes defaults given raw)) type inner
        leads member whole path
  | .bytes content =>
      intro type inner path leads member whole
      rw [coerce]
      exact decides_through types takes raw (partsDecide_bytes content _) type inner leads member
        whole path
  | .null | .bool _ | .int _ | .float .. | .str _ | .decimal .. | .date _ | .timestamp _
  | .member .. =>
      intro type inner path leads member whole
      exact decides_through types takes raw (partsDecide_atom rfl (by rintro _ ⟨⟩)) type inner leads
        member whole path

theorem itemsDecide (types : TextInputTypes layout known) (takes : LeavesTake answer layout known)
    (defaults : DefaultsConform answer layout known) (items : List Value)
    (raw : Value.allRaw items = true) : ∀ item ∈ items, DecidesAll answer layout known item := by
  match items with
  | [] =>
      intro item inside
      cases inside
  | item :: rest =>
      intro other inside
      rw [Value.allRaw, Bool.and_eq_true] at raw
      rcases List.mem_cons.1 inside with same | later
      · rw [same]
        exact decidesAll types takes defaults item raw.1
      · exact itemsDecide types takes defaults rest raw.2 other later

theorem entriesDecide (types : TextInputTypes layout known)
    (takes : LeavesTake answer layout known) (defaults : DefaultsConform answer layout known)
    (given : List (Value × Value)) (raw : Value.entriesRaw given = true) :
    ∀ entry ∈ given, DecidesAll answer layout known entry.2 := by
  match given with
  | [] =>
      intro entry inside
      cases inside
  | (key, item) :: rest =>
      intro other inside
      rw [Value.entriesRaw, Bool.and_eq_true, Bool.and_eq_true] at raw
      rcases List.mem_cons.1 inside with same | later
      · rw [same]
        exact decidesAll types takes defaults item raw.1.2
      · exact entriesDecide types takes defaults rest raw.2 other later

end

end Input

namespace Leaf

end Leaf

namespace Input

end Input

namespace Schema

variable {declared : SchemaDeclaration} {schema : Schema}

end Schema

namespace Schema

end Schema

end GraphQL
