import GraphQL.Proofs.Account
import GraphQL.Selection

/-!
What reading a document asks of the application and how it fails. Arguments, directives and leaf
values are read by actions; they call nothing but the functions of leaf types, and as long as those
fail in a harmless way, so do the actions.
-/

namespace GraphQL

/-- What a call passes on about the field that it is made for, if it is made for one. -/
def Call.info? : Call → Option Info
  | .resolve _ _ _ info | .invoke _ _ info | .resolveType _ _ _ info | .isTypeOf _ _ _ info =>
    some info
  | _ => none

/-- The calls that reading a document leads to, those of functions for literals, are allowed, and so
are the failures that the document, values and leaf types are to blame for. -/
structure Mild (calls : Call → Prop) (good : Failure → Prop) : Prop where
  literals : ∀ function literal vars, calls (.parseLiteral function literal vars)
  response : ∀ error : ResponseError, error.path = [] → error.origin = none →
    good (.response error)
  value : ∀ fault, good (.value fault)
  leaf : ∀ fault, good (.leaf fault)

/-- Whatever reading a document can lead to is allowed, the faults of the schema included. -/
structure Lenient (calls : Call → Prop) (good : Failure → Prop) : Prop
    extends Mild calls good where
  schema : ∀ fault, good (.schema fault)
  assertion : ∀ violated, good (.assertion violated)

/-- A result that is no failure, or a good one. -/
def Except.FailsWell (good : Failure → Prop) (result : Except Failure α) : Prop :=
  ∀ failure, result = .error failure → good failure

/-- A part of a schema that is worked out, or whose fault is a good failure. -/
def Checked.FailsWell (good : Failure → Prop) (result : Checked α) : Prop :=
  ∀ fault, result = .error fault → good (.schema fault)

theorem Checked.failsWell_bind {good : Failure → Prop} {β : Type} (result : Checked α)
    (next : α → Checked β) (first : Checked.FailsWell good result)
    (second : ∀ value, result = .ok value → Checked.FailsWell good (next value)) :
    Checked.FailsWell good (result >>= next) := by
  cases result with
  | ok value => exact second value rfl
  | error fault =>
      intro other failed
      cases failed
      exact first fault rfl

namespace Action

/-- All calls of an action are allowed, and it fails well if all replies do. -/
def Within (calls : Call → Prop) (good : Failure → Prop) : Action α → Prop
  | .done result => Except.FailsWell good result
  | .call asked next =>
    calls asked ∧ ∀ reply, Except.FailsWell good reply → (next reply).Within calls good

variable {α β : Type} {calls : Call → Prop} {good : Failure → Prop}

theorem within_pure (value : α) : (pure value : Action α).Within calls good := by
  intro failure failed
  cases failed

theorem within_fail (failure : Failure) (allowed : good failure) :
    (fail failure : Action α).Within calls good := by
  intro other failed
  cases failed
  exact allowed

theorem within_andThen (action : Action α) (next : Except Failure α → Action β)
    (first : action.Within calls good)
    (second : ∀ result, Except.FailsWell good result → (next result).Within calls good) :
    (action.andThen next).Within calls good := by
  induction action with
  | done result => exact second result first
  | call asked reply ih => exact ⟨first.1, fun answer well => ih answer (first.2 answer well)⟩

theorem within_bind (action : Action α) (next : α → Action β) (first : action.Within calls good)
    (second : ∀ value, (next value).Within calls good) :
    (action >>= next).Within calls good := by
  refine within_andThen action _ first ?_
  intro result well
  cases result with
  | ok value => exact second value
  | error failure => exact within_fail failure (well failure rfl)

/-- What is worked out is gone on with; the fault of what is not has to be allowed. -/
theorem within_checked (result : Checked α) (well : Checked.FailsWell good result) :
    (liftM result : Action α).Within calls good := by
  cases result with
  | ok value => exact within_pure value
  | error fault => exact within_fail _ (well fault rfl)

theorem within_worked (result : Checked α) (next : α → Action β)
    (well : Checked.FailsWell good result)
    (second : ∀ value, result = .ok value → (next value).Within calls good) :
    ((liftM result : Action α) >>= next).Within calls good := by
  cases result with
  | ok value => exact second value rfl
  | error fault => exact within_fail _ (well fault rfl)

theorem within_fault (mild : Mild calls good) (result : Except ValueFault α) :
    (liftM result : Action α).Within calls good := by
  cases result with
  | ok value => exact within_pure value
  | error fault => exact within_fail _ (mild.value fault)

theorem within_lift (result : Except Failure α) (well : Except.FailsWell good result) :
    (liftM result : Action α).Within calls good := well

theorem within_ask (asked : Call) (allowed : calls asked) : (ask asked).Within calls good :=
  ⟨allowed, fun _ well => well⟩

end Action

namespace Leaf

variable {calls : Call → Prop} {good : Failure → Prop}

theorem failsWell_ok {α : Type} (value : α) :
    Except.FailsWell good (.ok value : Except Failure α) := by
  intro failure failed
  cases failed

theorem failsWell_refuse {α : Type} (mild : Mild calls good) (direction : LeafDirection)
    (problem : LeafProblem) :
    Except.FailsWell good (refuse direction problem : Except Failure α) := by
  intro failure failed
  cases failed
  exact mild.leaf _

theorem failsWell_liftFault {α : Type} (mild : Mild calls good)
    (result : Except ValueFault α) : Except.FailsWell good (liftFault result) := by
  intro failure failed
  cases result with
  | ok value => cases failed
  | error fault =>
      cases failed
      exact mild.value fault

theorem failsWell_bind {α β : Type} (result : Except Failure α) (next : α → Except Failure β)
    (first : Except.FailsWell good result) (second : ∀ value, Except.FailsWell good (next value)) :
    Except.FailsWell good (result >>= next) := by
  cases result with
  | ok value => exact second value
  | error failure =>
      intro other failed
      cases failed
      exact first failure rfl

theorem failsWell_described {α : Type} (mild : Mild calls good) (direction : LeafDirection)
    (value : Value) (problem : String → String → LeafProblem) :
    Except.FailsWell good
      (described value problem >>= fun found => (refuse direction found : Except Failure α)) :=
  failsWell_bind _ _
    (failsWell_bind _ _ (failsWell_liftFault mild _) fun _ => failsWell_ok _)
    fun _ => failsWell_refuse mild direction _

theorem failsWell_int32 (mild : Mild calls good) (direction : LeafDirection) (n : Int)
    (original : Value) : Except.FailsWell good (int32 direction n original) := by
  unfold int32
  split
  · exact failsWell_ok _
  · exact failsWell_refuse mild _ _

theorem failsWell_integral (mild : Mild calls good) (direction : LeafDirection)
    (x : Binary64) (original : Value) : Except.FailsWell good (integral direction x original) := by
  unfold integral
  split
  · exact failsWell_refuse mild _ _
  · exact failsWell_refuse mild _ _
  · split
    · exact failsWell_int32 mild _ _ _
    · exact failsWell_refuse mild _ _

theorem failsWell_text (mild : Mild calls good) (value : Value) :
    Except.FailsWell good ((liftFault value.text).map Value.str) := by
  cases text : value.text with
  | ok found => exact failsWell_ok _
  | error fault =>
      intro failure failed
      cases failed
      exact mild.value fault

/-- The standard scalars fail only in their own ways to write a value. -/
theorem failsWell_serialize (mild : Mild calls good) (scalar : Standard) (value : Value) :
    Except.FailsWell good (scalar.serialize value) := by
  cases scalar with
  | int =>
      simp only [Standard.serialize, Leaf.Int.serialize]
      split
      · exact failsWell_ok _
      · exact failsWell_int32 mild _ _ _
      · refine failsWell_bind _ _ (failsWell_liftFault mild _) fun found => ?_
        cases found with
        | some x => exact failsWell_integral mild _ _ _
        | none => exact failsWell_refuse mild _ _
  | float =>
      simp only [Standard.serialize, Leaf.Float.serialize]
      split
      · exact failsWell_ok _
      · refine failsWell_bind _ _ (failsWell_liftFault mild _) fun found => ?_
        cases found with
        | some x =>
            simp only
            split
            · exact failsWell_ok _
            · exact failsWell_refuse mild _ _
        | none => exact failsWell_refuse mild _ _
  | string =>
      simp only [Standard.serialize, Leaf.String.serialize]
      split
      · exact failsWell_ok _
      · exact failsWell_ok _
      · exact failsWell_ok _
      · split
        · exact failsWell_text mild _
        · exact failsWell_refuse mild _ _
  | boolean =>
      simp only [Standard.serialize, Leaf.Boolean.serialize]
      split
      · exact failsWell_ok _
      · exact failsWell_ok _
      · exact failsWell_ok _
      · split
        · intro failure failed
          cases failed
          exact mild.value _
        · exact failsWell_ok _
      · exact failsWell_ok _
      · exact failsWell_refuse mild _ _
  | id =>
      simp only [Standard.serialize, Leaf.Id.serialize]
      split
      · exact failsWell_ok _
      · exact failsWell_ok _
      · exact failsWell_refuse mild _ _
      · exact failsWell_refuse mild _ _
      · exact failsWell_refuse mild _ _
      · split
        · exact failsWell_text mild _
        · exact failsWell_refuse mild _ _
  | date =>
      simp only [Standard.serialize, Leaf.Date.serialize]
      split
      · exact failsWell_ok _
      · exact failsWell_described mild _ _ _
  | dateTime =>
      simp only [Standard.serialize, Leaf.DateTime.serialize]
      split
      · split
        · exact failsWell_ok _
        · exact failsWell_described mild _ _ _
      · exact failsWell_described mild _ _ _
  | decimal =>
      simp only [Standard.serialize, Leaf.Decimal.serialize]
      split
      · exact failsWell_ok _
      · exact failsWell_ok _
      · exact failsWell_ok _
      · split
        · exact failsWell_ok _
        · exact failsWell_refuse mild _ _
      · exact failsWell_described mild _ _ _

theorem failsWell_readTimestamp (mild : Mild calls good) (text : String)
    (problem : String → String → LeafProblem) :
    Except.FailsWell good (readTimestamp text problem) := by
  unfold readTimestamp
  split
  · exact failsWell_ok _
  · intro failure failed
    cases failed
    exact mild.value _
  · exact failsWell_refuse mild _ _

theorem failsWell_parseText (mild : Mild calls good) (scalar : Standard)
    (parse : Value → Outcome) (each : ∀ value, Except.FailsWell good (parse value))
    (literal : Literal) : Except.FailsWell good (parseText scalar parse literal) := by
  unfold parseText
  split
  · exact each _
  · exact failsWell_refuse mild _ _

theorem failsWell_parseDate (mild : Mild calls good) (value : Value) :
    Except.FailsWell good (Leaf.Date.parseValue value) := by
  unfold Leaf.Date.parseValue
  split
  · exact failsWell_ok _
  · refine failsWell_bind _ _ (failsWell_readTimestamp mild _ _) fun stamp => ?_
    split
    · exact failsWell_ok _
    · exact failsWell_refuse mild _ _
  · exact failsWell_described mild _ _ _

theorem failsWell_parseDateTime (mild : Mild calls good) (value : Value) :
    Except.FailsWell good (Leaf.DateTime.parseValue value) := by
  unfold Leaf.DateTime.parseValue
  split
  · split
    · exact failsWell_ok _
    · exact failsWell_described mild _ _ _
  · refine failsWell_bind _ _ (failsWell_readTimestamp mild _ _) fun stamp => ?_
    split
    · exact failsWell_ok _
    · exact failsWell_refuse mild _ _
  · exact failsWell_ok _
  · exact failsWell_described mild _ _ _

theorem failsWell_parseDecimal (mild : Mild calls good) (value : Value) :
    Except.FailsWell good (Leaf.Decimal.parseValue value) := by
  unfold Leaf.Decimal.parseValue
  split
  · exact failsWell_ok _
  · exact failsWell_ok _
  · exact failsWell_ok _
  · split
    · exact failsWell_ok _
    · exact failsWell_refuse mild _ _
  · exact failsWell_described mild _ _ _

theorem failsWell_parseValue (mild : Mild calls good) (scalar : Standard) (value : Value) :
    Except.FailsWell good (scalar.parseValue value) := by
  cases scalar with
  | int =>
      simp only [Standard.parseValue, Leaf.Int.parseValue]
      split
      · exact failsWell_int32 mild _ _ _
      · exact failsWell_integral mild _ _ _
      · exact failsWell_refuse mild _ _
  | float =>
      simp only [Standard.parseValue, Leaf.Float.parseValue]
      split
      · split
        · exact failsWell_ok _
        · exact failsWell_refuse mild _ _
      · split
        · exact failsWell_ok _
        · exact failsWell_refuse mild _ _
      · exact failsWell_refuse mild _ _
  | string =>
      simp only [Standard.parseValue, Leaf.String.parseValue]
      split
      · exact failsWell_ok _
      · exact failsWell_refuse mild _ _
  | boolean =>
      simp only [Standard.parseValue, Leaf.Boolean.parseValue]
      split
      · exact failsWell_ok _
      · exact failsWell_refuse mild _ _
  | id =>
      simp only [Standard.parseValue, Leaf.Id.parseValue]
      split
      · exact failsWell_ok _
      · exact failsWell_ok _
      · exact failsWell_refuse mild _ _
  | date => exact failsWell_parseDate mild value
  | dateTime => exact failsWell_parseDateTime mild value
  | decimal => exact failsWell_parseDecimal mild value

theorem failsWell_parseLiteral (mild : Mild calls good) (scalar : Standard)
    (literal : Literal) : Except.FailsWell good (scalar.parseLiteral literal) := by
  cases scalar with
  | int =>
      simp only [Standard.parseLiteral, Leaf.Int.parseLiteral]
      split
      · refine failsWell_bind _ _ (failsWell_liftFault mild _) fun n => ?_
        split
        · exact failsWell_ok _
        · exact failsWell_refuse mild _ _
      · exact failsWell_refuse mild _ _
  | float =>
      simp only [Standard.parseLiteral, Leaf.Float.parseLiteral]
      split
      · exact failsWell_ok _
      · exact failsWell_ok _
      · exact failsWell_refuse mild _ _
  | string =>
      simp only [Standard.parseLiteral, Leaf.String.parseLiteral]
      split
      · exact failsWell_ok _
      · exact failsWell_refuse mild _ _
  | boolean =>
      simp only [Standard.parseLiteral, Leaf.Boolean.parseLiteral]
      split
      · exact failsWell_ok _
      · exact failsWell_refuse mild _ _
  | id =>
      simp only [Standard.parseLiteral, Leaf.Id.parseLiteral]
      split
      · exact failsWell_ok _
      · exact failsWell_ok _
      · exact failsWell_refuse mild _ _
  | date => exact failsWell_parseText mild _ _ (failsWell_parseDate mild) literal
  | dateTime => exact failsWell_parseText mild _ _ (failsWell_parseDateTime mild) literal
  | decimal => exact failsWell_parseText mild _ _ (failsWell_parseDecimal mild) literal

end Leaf

end GraphQL
