import GraphQL.Proofs.Executing
import GraphQL.Proofs.Keys

/-!
Ordinary behaviour. If the application raises nothing that ends everything, and no error that has a
path already, then a computation fails in an ordinary way or not at all, and every place that failed
has an error with its own path.
-/

namespace GraphQL

/-- A failure that execution handles and that belongs to no position yet. -/
structure Failure.Ordinary (failure : Failure) : Prop where
  handled : failure.halts = false
  fresh : ∀ error, failure = .response error → error.path = []

namespace Value

/-- What execution can take out of a value. -/
inductive Offers : Value → Value → Prop where
  | self (value : Value) : Offers value value
  | item {value item found : Value} {items : List Value} :
    Completion.listItems? value = some items → item ∈ items → Offers item found →
    Offers value found
  | part {value part found : Value} {name : String} :
    value.get? name = some part → Offers part found → Offers value found
  | result {receiver arguments context result found : Value} {name : String} :
    receiver.callMethod name arguments context = .ok result → Offers result found →
    Offers (.method receiver name) found

/-- An error that a value offers is ordinary, unless it is one that is never raised. -/
def Harmless (value : Value) : Prop :=
  ∀ thrown, value.Offers (.error thrown) →
    thrown.kind = .fatal ∨ (Failure.ofThrown thrown).Ordinary

/-- Values that offer nothing but their methods. -/
inductive Bare : Value → Prop where
  | null : Bare .null
  | str (text : String) : Bare (.str text)
  | map : Bare (.map [])
  | method {receiver : Value} (name : String) : Bare receiver → Bare (.method receiver name)

theorem Bare.part {value part : Value} {name : String} (bare : value.Bare)
    (found : value.get? name = some part) : part.Bare := by
  have methods : ∀ own : Value, own.Bare → own.dataAttribute? name = none →
      own.attribute? name = some part → part.Bare := by
    intro own bare none_ found
    rw [attribute?, none_] at found
    simp only [Option.orElse_none] at found
    split at found
    · cases found
      exact .method name bare
    · cases found
  cases bare with
  | null => exact methods .null .null rfl found
  | str text => exact methods (.str text) (.str text) rfl found
  | map => cases found
  | method own bare => exact methods _ (.method own bare) rfl found

theorem Bare.result {receiver arguments context result : Value} {name : String}
    (bare : receiver.Bare) (called : receiver.callMethod name arguments context = .ok result) :
    result.Bare := by
  cases bare with
  | null => cases called
  | map => cases called
  | method own bare => cases called
  | str text =>
      unfold callMethod at called
      split at called
      · cases called
      · cases called
      · simp only at called
        cases made : format text [arguments, context, .str fieldInfoName] with
        | error fault =>
            rw [made] at called
            cases called
        | ok shown =>
            rw [made] at called
            cases called
            exact .str shown
      · split at called <;> cases called
      · split at called
        · cases called
        · split at called <;> cases called
      · cases called

theorem Bare.offers {value found : Value} (offers : value.Offers found) (bare : value.Bare) :
    found.Bare := by
  induction offers with
  | self value => exact bare
  | item listed _ _ _ => cases bare <;> cases listed
  | part looked _ ih => exact ih (bare.part looked)
  | result called _ ih =>
      cases bare with
      | method name bare => exact ih (bare.result called)

theorem Bare.harmless {value : Value} (bare : value.Bare) : value.Harmless := by
  intro thrown offers
  cases bare.offers offers

theorem Harmless.item {value item : Value} {items : List Value} (harmless : value.Harmless)
    (listed : Completion.listItems? value = some items) (member : item ∈ items) : item.Harmless :=
  fun thrown offers => harmless thrown (.item listed member offers)

theorem Harmless.part {value part : Value} {name : String} (harmless : value.Harmless)
    (found : value.get? name = some part) : part.Harmless :=
  fun thrown offers => harmless thrown (.part found offers)

theorem Harmless.result {receiver arguments context result : Value} {name : String}
    (harmless : (Value.method receiver name).Harmless)
    (called : receiver.callMethod name arguments context = .ok result) : result.Harmless :=
  fun thrown offers => harmless thrown (.result called offers)

end Value

/-- An application whose failures are all ordinary, however it hands them over. -/
structure Account.Ordinary (account : Account) (root : Value) : Prop where
  root : root.Harmless
  replies : ∀ asked value, account.called asked (.ok value) → value.Harmless
  failures : ∀ asked failure, account.called asked (.error failure) → failure.Ordinary
  items : ∀ handle items fault, account.drained handle items fault → ∀ item ∈ items, item.Harmless
  faults : ∀ handle items failure, account.drained handle items (some failure) → failure.Ordinary
  results : ∀ ticket value, account.came ticket (.ok value) → value.Harmless
  refusals : ∀ ticket failure, account.came ticket (.error failure) → failure.Ordinary

/-- The failures that execution meets: ordinary ones, and that something would have to wait where
nothing may. -/
def Setting.Tolerates (setting : Setting) (failure : Failure) : Prop :=
  failure.Ordinary ∨ (setting.synchronous = true ∧ failure = .asynchronous)

namespace Failure

theorem ordinary_of_kind (failure : Failure) (handled : failure.halts = false)
    (other : ∀ error, failure ≠ .response error) : failure.Ordinary :=
  ⟨handled, fun error same => absurd same (other error)⟩

theorem ordinary_response (error : ResponseError) (fresh : error.path = []) :
    (response error).Ordinary :=
  ⟨rfl, fun _ same => by cases same; exact fresh⟩

theorem ordinary_schema (fault : SchemaFault) : (schema fault).Ordinary :=
  ordinary_of_kind _ (by cases fault <;> rfl) fun _ same => by cases same

theorem ordinary_value (fault : ValueFault) : (value fault).Ordinary :=
  ordinary_of_kind _ (by cases fault <;> rfl) fun _ same => by cases same

theorem ordinary_leaf (fault : LeafFault) : (leaf fault).Ordinary := by
  refine ordinary_of_kind _ ?_ fun _ same => by cases same
  obtain ⟨direction, problem⟩ := fault
  cases direction <;> rfl

theorem ordinary_assertion (violated : Assertion) : (assertion violated).Ordinary :=
  ordinary_of_kind _ rfl fun _ same => by cases same

theorem lenient_ordinary : Lenient (fun _ => True) Ordinary where
  literals _ _ _ := trivial
  response error fresh _ := ordinary_response error fresh
  schema := ordinary_schema
  value := ordinary_value
  leaf := ordinary_leaf
  assertion := ordinary_assertion

end Failure

variable {setting : Setting} {account : Account}

theorem Setting.lenient_tolerates (setting : Setting) :
    Lenient (fun _ => True) setting.Tolerates where
  literals _ _ _ := trivial
  response error fresh _ := .inl (Failure.ordinary_response error fresh)
  schema fault := .inl (Failure.ordinary_schema fault)
  value fault := .inl (Failure.ordinary_value fault)
  leaf fault := .inl (Failure.ordinary_leaf fault)
  assertion violated := .inl (Failure.ordinary_assertion violated)

theorem Action.good_of_within {α : Type} {calls : Call → Prop} {good : Failure → Prop}
    (action : Action α) (within : action.Within calls good)
    (replies : ∀ asked failure, account.called asked (.error failure) → good failure)
    (failure : Failure) (yields : action.Yields account (.error failure)) : good failure := by
  induction action with
  | done result => exact within failure yields.symm
  | call asked next ih =>
      rcases yields with ⟨reply, called, rest⟩
      refine ih reply (within.2 reply fun other failed => ?_) rest
      rw [failed] at called
      exact replies asked other called

end GraphQL
