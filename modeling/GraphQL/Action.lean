import GraphQL.Call

/-!
Computations that may call the application on their way to a result. An action is a tree: it is
done, or it makes one call and goes on with the reply. Nothing in it waits.
-/

namespace GraphQL

inductive Action (α : Type) where
  | done (result : Except Failure α)
  | call (call : Call) (next : Reply → Action α)

namespace Action

variable {α β : Type}

def succeed (value : α) : Action α := done (.ok value)

def fail (failure : Failure) : Action α := done (.error failure)

/-- Goes on from the result of an action, whether a value or a failure. -/
def andThen (action : Action α) (next : Except Failure α → Action β) : Action β :=
  match action with
  | done result => next result
  | call asked reply => call asked fun answer => (reply answer).andThen next

def bind (action : Action α) (next : α → Action β) : Action β :=
  action.andThen fun
    | .ok value => next value
    | .error failure => fail failure

instance : Monad Action where
  pure := succeed
  bind := bind

/-- Calls the application for a value. -/
def ask (asked : Call) : Action Value := call asked done

/-- An action with its failure as a result. -/
def attempt (action : Action α) : Action (Except Failure α) := action.andThen succeed

instance : MonadLift (Except Failure) Action := ⟨done⟩

instance : MonadLift (Except SchemaFault) Action := ⟨fun result => done (result.mapError .schema)⟩

instance : MonadLift (Except ValueFault) Action := ⟨fun result => done (result.mapError .value)⟩

/-- Runs an action against the application, whose state the calls change. -/
def run {σ : Type} (answer : Call → σ → Reply × σ) : Action α → σ → Except Failure α × σ
  | done result, state => (result, state)
  | call asked next, state =>
    let (reply, state) := answer asked state
    (next reply).run answer state

theorem andThen_done (result : Except Failure α) (next : Except Failure α → Action β) :
    (done result).andThen next = next result := rfl

theorem andThen_assoc {γ : Type} (action : Action α) (f : Except Failure α → Action β)
    (g : Except Failure β → Action γ) :
    (action.andThen f).andThen g = action.andThen fun result => (f result).andThen g := by
  induction action with
  | done result => rfl
  | call asked next ih => simp [andThen, ih]

theorem run_andThen {σ : Type} (answer : Call → σ → Reply × σ) (action : Action α)
    (next : Except Failure α → Action β) (state : σ) :
    (action.andThen next).run answer state =
      (next (action.run answer state).1).run answer (action.run answer state).2 := by
  induction action generalizing state with
  | done result => rfl
  | call asked reply ih => simp [andThen, run, ih]

end Action

end GraphQL
