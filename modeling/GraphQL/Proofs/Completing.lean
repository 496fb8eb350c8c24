import GraphQL.Proofs.Located
import GraphQL.Proofs.Siblings

/-!
Completion agrees with what it means. Each program of completion meets the computation of the same
name, from finding the type of a value to putting the items of a list together.
-/

namespace GraphQL

/-- A value that a response can show as it is. -/
def Value.isPlain : Value → Bool
  | .deferred _ | .error _ => false
  | _ => true

namespace Schema

/-- Whether a type stands in the type map. -/
def Knows (schema : Schema) (id : TypeId) : Prop :=
  ∃ found name, schema.reached = .ok found ∧ (name, id) ∈ found

/-- The leaf types in effect: those of the type map, and the one that writes the names of types. -/
def Writes (schema : Schema) (leaf : TypeId) : Prop :=
  schema.Knows leaf ∨ leaf = schema.leafInEffect (.standard .string)

end Schema

/-- A schema in which the fields of the known types are worked out, and every known type has a name
of its own. -/
structure Sound (schema : Schema) (known : TypeId → Prop) : Prop extends Closed schema known where
  named : ∀ type, known type → ∃ text, (schema.definition type).name = .str text
  declared : ∀ parent name, known parent → ∃ found, schema.field? parent name = .ok found
    ∧ ∀ field, found = some field → ∃ type id, field.type = .ok type ∧ type.innermost = .ok id
  written : ∀ parent name field type id, known parent →
    schema.field? parent name = .ok (some field) → field.type = .ok type →
    type.innermost = .ok id → schema.Writes (schema.leafInEffect id)
  distinct : ∀ left right, known left → known right →
    (schema.definition left).name.equals (schema.definition right).name = true → left = right

/-- What leaves are written as is plain, and what is remembered is what nodes select. -/
structure Faithful (setting : Setting) (account : Account) (known : TypeId → Prop) : Prop where
  forms : ∀ leaf value form, setting.schema.Writes leaf →
    (setting.schema.serialize leaf value).Yields account (.ok form) → form.isPlain = true
  remembered : ∀ key fields, account.remembered key fields → ∃ type, known type
    ∧ key.type = (setting.schema.definition type).name
    ∧ (setting.scope.collectNodes type key.nodes).Yields account (.ok fields)

namespace Program

variable {account : Account} {α β : Type}

theorem runs_pure (value : α) (next : Except Failure α → Program) :
    Runs account (.pure value) (next (.ok value)) next :=
  fun _ _ comes => ⟨_, rfl, comes⟩

theorem runs_fail (failure : Failure) (next : Except Failure α → Program) :
    Runs account (.fail failure) (next (.error failure)) next :=
  fun _ _ comes => ⟨_, rfl, comes⟩

theorem runs_asked (asked : Call) (next : Reply → Program) :
    Runs account (account.called asked) (call asked next) next := by
  intro outcome encountered comes
  simp only [Comes] at comes
  exact comes

theorem runs_wait (tickets : List Nat) (next : Except Failure (List Value) → Program) :
    Runs account (account.Awaited tickets) (wait tickets next) next := by
  intro outcome encountered comes
  simp only [Comes] at comes
  exact comes

theorem runs_bind {first : Results α} {second : α → Results β} {program : Program}
    {middle : Except Failure α → Program} {next : Except Failure β → Program}
    (runs : Runs account first program middle)
    (fails : ∀ failure, middle (.error failure) = next (.error failure))
    (each : ∀ value, Runs account (second value) (middle (.ok value)) next) :
    Runs account (first.bind second) program next := by
  intro outcome encountered comes
  rcases runs outcome encountered comes with ⟨result, found, comes⟩
  cases result with
  | error failure =>
      rw [fails] at comes
      exact ⟨_, .inl ⟨failure, found, rfl⟩, comes⟩
  | ok value =>
      rcases each value outcome encountered comes with ⟨result, later, comes⟩
      exact ⟨result, .inr ⟨value, found, later⟩, comes⟩

theorem runs_closing {results : Results α} (tickets : List Nat) (program : Program)
    {next : Except Failure α → Program} (runs : Runs account results program next) :
    Runs account results (closing tickets program) next :=
  fun outcome encountered comes => runs outcome encountered (comes_closing tickets program comes)

end Program

namespace RuntimeType

open Program

variable {setting : Setting} {account : Account}

theorem runs_decideDeferred (deferred : List (TypeId × Nat))
    (next : Except Failure (Option TypeId) → Program) :
    Runs account (Reference.decided setting account deferred)
      (decideDeferred setting deferred next) next := by
  simp only [decideDeferred, Reference.decided]
  split
  · exact runs_pure none next
  · split
    · exact runs_closing _ _ (runs_fail _ next)
    · exact runs_bind (runs_wait _ _) (fun failure => rfl) fun results => runs_pure _ next

theorem runs_askTypes (info : Info) (value : Value)
    (next : Except Failure (Option TypeId) → Program) (types : List (TypeId × Slot))
    (deferred : List (TypeId × Nat)) :
    Runs account (Reference.claimant setting account info value types deferred)
      (askTypes setting info value next types deferred) next := by
  induction types generalizing deferred with
  | nil => exact runs_decideDeferred deferred next
  | cons entry rest ih =>
      obtain ⟨type, test⟩ := entry
      rw [askTypes, Reference.claimant]
      refine runs_bind (runs_call test _ _) (fun failure => rfl) fun answer => ?_
      cases answer with
      | deferred ticket => exact ih _
      | _ =>
          simp only
          split
          · exact runs_closing _ _ (runs_pure _ next)
          · exact ih _

theorem runs_claimant (info : Info) (value : Value) (types : List (TypeId × Slot))
    (next : Outcome → Program) :
    Runs account
      ((Reference.claimant setting account info value types []).bind fun
        | some type => .pure (setting.schema.catalog.value (.named type))
        | none => .pure .null)
      (askTypes setting info value
        (fun
          | .ok (some type) => next (.ok (setting.schema.catalog.value (.named type)))
          | .ok none => next (.ok .null)
          | .error failure => next (.error failure)) types [])
      next := by
  refine runs_bind (runs_askTypes info value _ types []) (fun failure => rfl) fun found => ?_
  cases found with
  | none => exact runs_pure _ next
  | some type => exact runs_pure _ next

theorem runs_possible (setting : Setting) (account : Account) (info : Info) (abstract : TypeId)
    (value : Value) (next : Outcome → Program) :
    Runs account
      (match setting.schema.possibleTypes abstract with
        | .error fault => .fail (.schema fault)
        | .ok possible =>
          (Reference.claimant setting account info value (tested setting.schema possible) []).bind
            fun
              | some type => .pure (setting.schema.catalog.value (.named type))
              | none => .pure .null)
      (match setting.schema.possibleTypes abstract with
        | .error fault => next (.error (.schema fault))
        | .ok possible =>
          askTypes setting info value
            (fun
              | .ok (some type) => next (.ok (setting.schema.catalog.value (.named type)))
              | .ok none => next (.ok .null)
              | .error failure => next (.error failure))
            (tested setting.schema possible) [])
      next := by
  cases setting.schema.possibleTypes abstract with
  | error fault => exact runs_fail _ next
  | ok possible => exact runs_claimant info value _ next

theorem runs_byDefault (info : Info) (abstract : TypeId) (value : Value)
    (next : Outcome → Program) :
    Runs account (Reference.typeByDefault setting account info abstract value)
      (byDefault setting info abstract value next) next := by
  have rest := runs_possible setting account info abstract value next
  unfold byDefault Reference.typeByDefault
  rcases value.get? "__typename" with _ | named
  · exact rest
  · cases named with
    | str name => exact runs_pure _ next
    | _ => exact rest

theorem runs_find (info : Info) (abstract : TypeId) (value : Value) (next : Outcome → Program) :
    Runs account (Reference.typeFound setting account info abstract value)
      (find setting info abstract value next) next := by
  simp only [find, Reference.typeFound]
  split
  · exact runs_bind (runs_call _ _ _) (fun failure => rfl) fun found => runs_receive setting found next
  · cases setting.environment.typeResolver with
    | some id =>
        exact runs_bind (runs_asked _ _) (fun failure => rfl) fun found =>
          runs_receive setting found next
    | none => exact runs_byDefault info abstract value next

end RuntimeType

namespace Completion

open Program

variable {setting : Setting} {account : Account} {known : TypeId → Prop}

/-- Objects show the contents that they have. -/
def BelowMeets (account : Account) (known : TypeId → Prop) (below : Subfields)
    (objects : Reference.Objects) : Prop :=
  ∀ type value path fields, known type →
    (below type value path fields).Meets account (objects type value path fields) Content.Shows

theorem meets_leaf (faithful : Faithful setting account known) (type : TypeId) (value : Value)
    (written : setting.schema.Writes (setting.schema.leafInEffect type)) :
    (leaf setting type value).Meets account (Reference.leaf setting account type value)
      Content.Shows := by
  refine meets_of_runs (runs_act _ _) (fun failure => rfl) fun form found => ?_
  have plain := faithful.forms _ _ _ written found
  have settled : (if form.isNull || form.isUndefined then
        fail (CompletionProblem.failure (.notSerialized
          (setting.schema.label (setting.schema.leafInEffect type)) value.shown))
      else succeed form).Meets account
      (if form.isNull || form.isUndefined then
        .fail (CompletionProblem.failure (.notSerialized
          (setting.schema.label (setting.schema.leafInEffect type)) value.shown))
      else .pure (.leaf form)) Content.Shows := by
    split
    · exact meets_fail _ rfl
    · next present =>
        simp only [Bool.or_eq_true, not_or, Bool.not_eq_true] at present
        refine meets_succeed (Content.leaf form) form rfl ⟨present.1, .whole rfl ?_ rfl, rfl⟩
        cases form with
        | error thrown => cases plain
        | undefined => cases present.2
        | _ => rfl
  cases form with
  | deferred ticket => cases plain
  | _ => exact settled

theorem runs_subfields (sound : Sound setting.schema known)
    (faithful : Faithful setting account known) (type : TypeId) (nodes : List FieldNode)
    (next : Except Failure Collected → Program) (knownType : known type) :
    Runs account ((setting.scope.collectNodes type nodes).Yields account)
      (subfields setting type nodes next) next := by
  intro outcome encountered comes
  simp only [subfields, Comes] at comes
  rcases comes with ⟨found, consulted, comes⟩
  cases found with
  | some fields =>
      rcases consulted with ⟨key, remembered, same⟩
      rcases faithful.remembered key fields remembered with ⟨other, knownOther, named, yields⟩
      rw [SubfieldKey.equals_nodes key _ same] at yields
      rw [SubfieldKey.equals, named, Bool.and_eq_true] at same
      rw [sound.distinct other type knownOther knownType same.1] at yields
      exact ⟨_, yields, comes⟩
  | none =>
      rcases comes_act _ _ comes with ⟨result, yields, comes⟩
      cases result with
      | error failure => exact ⟨_, yields, comes⟩
      | ok fields =>
          simp only [Comes, Effect.encounters, List.nil_append] at comes
          rcases comes with ⟨rest, rfl, comes⟩
          exact ⟨_, yields, comes⟩

theorem runs_claimed (below : Subfields) (info : Info) (type : TypeId) (path : ResponsePath)
    (value : Value) :
    Runs account (Reference.claimed setting account info type value)
      (object setting below info type path value) fun
        | .ok _ => executeSubfields setting below info type path value
        | .error failure => fail failure := by
  simp only [object, Reference.claimed]
  split
  · exact fun _ _ comes => ⟨.ok (), rfl, comes⟩
  · refine runs_bind (runs_call _ _ _) (fun failure => rfl) fun answer => ?_
    refine runs_bind (runs_receive setting answer _) (fun failure => rfl) fun holds => ?_
    simp only [onSuccess]
    split
    · exact fun _ _ comes => ⟨.ok (), rfl, comes⟩
    · exact fun _ _ comes => ⟨.error _, rfl, comes⟩

variable {below : Subfields} {objects : Reference.Objects}

theorem meets_object (sound : Sound setting.schema known)
    (faithful : Faithful setting account known) (meets : BelowMeets account known below objects)
    (info : Info) (type : TypeId) (path : ResponsePath) (value : Value) (knownType : known type) :
    (object setting below info type path value).Meets account
      (Reference.object setting account objects info type path value) Content.Shows := by
  refine meets_of_runs (runs_claimed below info type path value) (fun failure => rfl) fun _ _ => ?_
  refine meets_of_runs (runs_subfields sound faithful type info.nodes _ knownType)
    (fun failure => rfl) fun fields _ => ?_
  exact meets type value path fields knownType

theorem meets_abstract (sound : Sound setting.schema known)
    (faithful : Faithful setting account known) (meets : BelowMeets account known below objects)
    (info : Info) (type : TypeId) (path : ResponsePath) (value : Value) :
    (abstract setting below info type path value).Meets account
      (Reference.abstract setting account objects info type path value) Content.Shows := by
  refine meets_of_runs (RuntimeType.runs_find info type value _) (fun failure => rfl)
    fun found _ => ?_
  simp only [onSuccess]
  cases checked : RuntimeType.check setting info type value found with
  | error failure => exact meets_fail _ rfl
  | ok id =>
      have possible := RuntimeType.possible_of_check info type value found id checked
      exact meets_object sound faithful meets info id path value
        (sound.possible type id possible.1 possible.2)

theorem meets_named (sound : Sound setting.schema known)
    (faithful : Faithful setting account known) (meets : BelowMeets account known below objects)
    (info : Info) (type : TypeId) (path : ResponsePath) (value : Value)
    (knownType : setting.schema.kindOf type = .object → known type)
    (written : setting.schema.Writes (setting.schema.leafInEffect type)) :
    (named setting below info type path value).Meets account
      (Reference.named setting account objects info type path value) Content.Shows := by
  unfold named Reference.named
  cases kind : setting.schema.kindOf type with
  | scalar => exact meets_leaf faithful type value written
  | enum => exact meets_leaf faithful type value written
  | object => exact meets_object sound faithful meets info type path value (knownType kind)
  | interface => exact meets_abstract sound faithful meets info type path value
  | union => exact meets_abstract sound faithful meets info type path value
  | input => exact meets_fail _ rfl

/-- The place of a list item. -/
def item (setting : Setting) (info : Info) (type : TypeRef) (path : ResponsePath)
    (complete : ResponsePath → Value → Program) (results : ResponsePath → Value → Results Content)
    (each : ∀ place value, (complete place value).Meets account (results place value)
      Content.Shows) (value : Value) (index : Nat) : Sibling account where
  program :=
    (receive setting value (onSuccess (complete (path.extend (.index index))))).andThen
      (settle type info.nodes (path.extend (.index index)))
  results :=
    Results.placed type info.nodes (path.extend (.index index))
      ((Reference.handed setting account value).bind (results (path.extend (.index index))))
  meets :=
    meets_settle _ type info.nodes (path.extend (.index index))
      (meets_of_runs (runs_receive setting value _) (fun _ => rfl) fun value _ => each _ value)
  handled _ found := found.2

theorem meets_items (info : Info) (type : TypeRef) (path : ResponsePath)
    (complete : ResponsePath → Value → Program) (results : ResponsePath → Value → Results Content)
    (sane : ∀ fault, type ≠ .broken fault)
    (each : ∀ place value, (complete place value).Meets account (results place value)
      Content.Shows) (values : List Value) :
    (items setting info type path complete values).Meets account
      ((Results.together (values.zipIdx.map fun (item, index) =>
        Results.placed type info.nodes (path.extend (.index index))
          ((Reference.handed setting account item).bind
            (results (path.extend (.index index)))))).bind fun places => .pure (.list places))
      Content.Shows := by
  have joined := meets_gathered
    (values.zipIdx.map fun entry =>
      (item setting info type path complete results each entry.1 entry.2 : Sibling account))
    .list .list (fun _ => rfl) (fun _ => trivial) (fun _ => rfl) (fun _ => rfl) (fun _ => rfl)
  rw [List.map_map, List.map_map] at joined
  unfold items
  split
  · next fault => exact absurd rfl (sane fault)
  · exact meets_silent rfl joined

theorem runs_list (info : Info) (type : TypeRef) (path : ResponsePath)
    (complete : ResponsePath → Value → Program) (value : Value) :
    Runs account (Reference.listed setting account info value)
      (list setting info type path complete value) fun
        | .ok values => items setting info type path complete values
        | .error failure => fail failure := by
  cases value with
  | iterator handle =>
      intro outcome encountered comes
      simp only [list, Comes] at comes
      rcases comes with ⟨values, fault, drained, comes⟩
      cases fault with
      | none => exact ⟨.ok values, ⟨values, none, drained, rfl⟩, comes⟩
      | some failure =>
          refine ⟨.error failure, ⟨values, some failure, drained, rfl⟩, ?_⟩
          simp only at comes
          split at comes
          · exact comes
          · exact comes_closing _ _ comes
  | _ =>
      intro outcome encountered comes
      simp only [list] at comes
      simp only [Reference.listed]
      split at comes
      · next values found =>
          rw [found]
          exact ⟨.ok values, rfl, comes⟩
      · next found =>
          rw [found]
          exact ⟨_, rfl, comes⟩

variable {below : Subfields} {objects : Reference.Objects}

theorem meets_required (info : Info) (program : Program) (results : Results Content)
    (meets : program.Meets account results Content.Shows) :
    (program.andThen (requireValue setting info)).Meets account
      (results.bind (Reference.required setting info)) Content.Shows := by
  intro outcome encountered comes
  rcases comes_andThen program _ comes with ⟨middle, before, after, first, second, rfl⟩
  rcases meets middle before first with
    ⟨content, found, solid, shown, rfl⟩ | ⟨failure, found, rfl, silent⟩
  · cases shown with
    | nulled data located rises =>
        rcases comes_fail _ second with ⟨rfl, rfl⟩
        refine .inl ⟨content, .inr ⟨content, found, ?_⟩, solid, ?_⟩
        · cases content with
          | null => cases data
          | _ => rfl
        · rw [List.append_nil]
          exact ⟨.nulled data located rises, rfl⟩
    | whole data plain none_ =>
        rename_i value
        simp only [requireValue, onSuccess] at second
        split at second
        · next null =>
            rcases comes_fail _ second with ⟨rfl, rfl⟩
            -- nothing but null shows as null
            have empty : content = .null := by
              cases content with
              | null => rfl
              | leaf form =>
                  cases data
                  rw [show value.isNull = false from solid] at null
                  cases null
              | list places =>
                  rcases Option.map_eq_some_iff.1 data with ⟨values, _, rfl⟩
                  cases null
              | object keys places =>
                  rcases Option.map_eq_some_iff.1 data with ⟨values, _, rfl⟩
                  cases null
            subst empty
            exact .inr ⟨_, .inr ⟨.null, found, rfl⟩, rfl, fun _ => rfl⟩
        · next present =>
            rcases comes_succeed _ second with ⟨rfl, rfl⟩
            refine .inl ⟨content, .inr ⟨content, found, ?_⟩, solid, ?_⟩
            · cases content with
              | null =>
                  cases data
                  exact absurd rfl present
              | _ => rfl
            · rw [List.append_nil]
              exact ⟨.whole data plain none_, rfl⟩
  · rcases comes_fail _ second with ⟨rfl, rfl⟩
    refine .inr ⟨failure, .inl ⟨failure, found, rfl⟩, rfl, fun goesOn => ?_⟩
    rw [silent goesOn]
    rfl

theorem meets_null :
    (succeed .null).Meets account (.pure Content.null) Content.Shows :=
  meets_succeed Content.null .null rfl ⟨trivial, .whole rfl rfl rfl, rfl⟩

/-- Completing a value shows what it makes of the type. -/
theorem meets_complete (sound : Sound setting.schema known)
    (faithful : Faithful setting account known) (meets : BelowMeets account known below objects)
    (info : Info) (type : TypeRef) (id : TypeId) (inner : type.innermost = .ok id)
    (knownType : setting.schema.kindOf id = .object → known id)
    (written : setting.schema.Writes (setting.schema.leafInEffect id)) (path : ResponsePath)
    (value : Value) :
    (complete setting below info type path value).Meets account
      (Reference.completed setting account objects info type path value) Content.Shows := by
  induction type generalizing path value with
  | broken fault => cases inner
  | nonNull of ih =>
      unfold complete Reference.completed
      cases raised? value with
      | some failure => exact meets_fail failure rfl
      | none => exact meets_required info _ _ (ih inner path value)
  | list of ih =>
      unfold complete Reference.completed
      cases raised? value with
      | some failure => exact meets_fail failure rfl
      | none =>
          simp only
          split
          · exact meets_null
          · refine meets_of_runs (runs_list info of path _ value) (fun _ => rfl) fun values _ => ?_
            refine meets_items info of path _ _ (fun fault same => ?_) (ih inner) values
            rw [same] at inner
            cases inner
  | named found =>
      cases inner
      unfold complete Reference.completed
      cases raised? value with
      | some failure => exact meets_fail failure rfl
      | none =>
          simp only
          split
          · exact meets_null
          · exact meets_named sound faithful meets info id path value knownType written

end Completion

end GraphQL
