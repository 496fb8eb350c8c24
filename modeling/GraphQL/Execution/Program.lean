import GraphQL.Selection

/-!
What executing an operation does, as a tree: calls of the application, effects on the response,
places that wait for deferred results, and joins of sibling positions. A program does nothing by
itself; `Process` carries one out.
-/

namespace GraphQL

/-- What a position of the response ends with: its value, or a failure that its parent must take. -/
abbrev Outcome := Except Failure Value

/-- The fields that nodes select on a type are known by the name of the type and the nodes. -/
structure SubfieldKey where
  type : Value
  nodes : List FieldNode

namespace SubfieldKey

def equals (left right : SubfieldKey) : Bool :=
  left.type.equals right.type && sameEach FieldNode.same left.nodes right.nodes

end SubfieldKey

inductive Effect where
  /-- The arguments of a field are bound and its resolver is about to be called. -/
  | resolving (path : ResponsePath)
  /-- The application has given the value of a field. -/
  | resolved (path : ResponsePath) (value : Value)
  /-- The application has given the items of a list. -/
  | listed (path : ResponsePath) (items : List Value)
  | record (error : ResponseError)
  /-- Gives up deferred results that nothing will wait for. -/
  | close (tickets : List Nat)
  | remember (key : SubfieldKey) (fields : Collected)

inductive Program where
  | done (outcome : Outcome)
  | call (asked : Call) (next : Reply → Program)
  | perform (effect : Effect) (next : Program)
  | consult (key : SubfieldKey) (next : Option Collected → Program)
  /-- Takes everything out of an iterator: its items, and the failure that it ends with, if any. -/
  | drain (handle : Nat) (next : List Value → Option Failure → Program)
  /-- Waits for all of the deferred results, or for the first of them to fail. -/
  | wait (tickets : List Nat) (next : Except Failure (List Value) → Program)
  /-- Runs siblings side by side and goes on when all are settled. A sibling that fails before it
  waits, with something other than a response error, ends the join at once. -/
  | join (children : List Program) (next : Except Failure (List Outcome) → Program)

namespace Program

def succeed (value : Value) : Program := done (.ok value)

def fail (failure : Failure) : Program := done (.error failure)

/-- Goes on from the outcome of a program. -/
def andThen (program : Program) (next : Outcome → Program) : Program :=
  match program with
  | done outcome => next outcome
  | call asked reply => call asked fun answer => (reply answer).andThen next
  | perform effect rest => perform effect (rest.andThen next)
  | consult key rest => consult key fun found => (rest found).andThen next
  | drain handle rest => drain handle fun items fault => (rest items fault).andThen next
  | wait tickets rest => wait tickets fun result => (rest result).andThen next
  | join children rest => join children fun settled => (rest settled).andThen next

/-- Carries out an action first. -/
def act (action : Action α) (next : Except Failure α → Program) : Program :=
  match action with
  | .done result => next result
  | .call asked reply => call asked fun answer => act (reply answer) next

/-- Waits for one deferred result. -/
def await (ticket : Nat) (next : Outcome → Program) : Program :=
  wait [ticket] fun
    | .ok values => next (.ok (values.headD .null))
    | .error failure => next (.error failure)

theorem andThen_done (outcome : Outcome) (next : Outcome → Program) :
    (done outcome).andThen next = next outcome := rfl

theorem andThen_assoc (program : Program) (f g : Outcome → Program) :
    (program.andThen f).andThen g = program.andThen fun outcome => (f outcome).andThen g := by
  match program with
  | done outcome => rfl
  | call asked reply => simp [andThen, fun answer => andThen_assoc (reply answer) f g]
  | perform effect rest => simp [andThen, andThen_assoc rest f g]
  | consult key rest => simp [andThen, fun found => andThen_assoc (rest found) f g]
  | drain handle rest =>
    simp [andThen, fun items fault => andThen_assoc (rest items fault) f g]
  | wait tickets rest => simp [andThen, fun result => andThen_assoc (rest result) f g]
  | join children rest => simp [andThen, fun settled => andThen_assoc (rest settled) f g]

theorem act_andThen (action : Action α) (next : Except Failure α → Program)
    (last : Outcome → Program) :
    (act action next).andThen last = act action fun result => (next result).andThen last := by
  induction action with
  | done result => rfl
  | call asked reply ih => simp [act, andThen, ih]

end Program

end GraphQL
