import GraphQL.Execution.Program

/-!
Positions of a response, which are fields and list items. A position that fails is nulled and its
error recorded; where null is not allowed, the failure goes on to the position around it.
-/

namespace GraphQL

/-- How an operation is carried out: in its environment, and with or without waiting. -/
structure Setting where
  environment : Environment
  /-- Execution ends at the first deferred result. -/
  synchronous : Bool

namespace Setting

def schema (setting : Setting) : Schema := setting.environment.schema

def scope (setting : Setting) : Scope :=
  ⟨setting.environment.schema, setting.environment.fragments, setting.environment.vars⟩

end Setting

namespace Program

/-- Gives up deferred results, if there are any. -/
def closing (tickets : List Nat) (next : Program) : Program :=
  if tickets.isEmpty then next else perform (.close tickets) next

/-- Takes a value that the application handed over, waiting for it if it is deferred. -/
def receive (setting : Setting) (value : Value) (next : Outcome → Program) : Program :=
  match value with
  | .deferred ticket =>
    if setting.synchronous then closing [ticket] (next (.error .asynchronous))
    else await ticket next
  | value => next (.ok value)

/-- Goes on from a value only. -/
def onSuccess (next : Value → Program) : Outcome → Program
  | .ok value => next value
  | .error failure => fail failure

/-- Records the response errors among failures up to the first failure of another kind, which ends
the program. Without one, the program ends with the given failure. -/
def bubble (first : Failure) : List Failure → Program
  | [] => fail first
  | .response error :: rest => perform (.record error) (bubble first rest)
  | failure :: _ => fail failure

end Program

/-- The failure that an outcome holds; a value that is an error counts as one. -/
def Outcome.failure? : Outcome → Option Failure
  | .ok value => Failure.ofValue? value
  | .error failure => some failure

/-- Puts settled siblings together. If any of them failed, all their errors are recorded and the
first goes on. -/
def Program.gathered (build : List Value → Value) : Except Failure (List Outcome) → Program
  | .error failure => .fail failure
  | .ok outcomes =>
    match outcomes.filterMap Outcome.failure? with
    | [] => .succeed (build (outcomes.filterMap Except.toOption))
    | first :: rest => .bubble first (first :: rest)

/-- Ends a position: a failure is recorded and nulls the position if its type allows. -/
def settle (type : TypeRef) (nodes : List FieldNode) (path : ResponsePath) : Outcome → Program
  | .ok value => .succeed value
  | .error failure =>
    if failure.isFatal || failure.kind = .asynchronous then .fail failure
    else
      let error := failure.locate (nodes.map (·.start)) path.toList
      if type.isNonNull then .fail (.response error)
      else .perform (.record error) (.succeed .null)

/-- Why a resolved value cannot become a part of the response. -/
inductive CompletionProblem where
  | nullForNonNull (parent field : String)
  | notIterable (parent field : String)
  | notSerialized (type shown : String)
  | unresolvedType (abstract parent field : String)
  | unknownType (abstract name : String)
  | notObjectType (abstract parent field shown received : String)
  | notPossible (type abstract : String)
  | wrongType (type shown : String)

def CompletionProblem.message : CompletionProblem → String
  | nullForNonNull parent field =>
    "Cannot return null for non-nullable field " ++ parent ++ "." ++ field ++ "."
  | notIterable parent field =>
    "Expected Iterable, but did not find one for field \"" ++ parent ++ "." ++ field ++ "\"."
  | notSerialized type shown =>
    "Expected a value of type \"" ++ type ++ "\" but received: " ++ shown
  | unresolvedType abstract parent field =>
    "Abstract type \"" ++ abstract ++ "\" must resolve to an Object type at runtime for field \""
      ++ parent ++ "." ++ field ++ "\". Either the \"" ++ abstract
      ++ "\" type should provide a \"resolve_type\" function or each possible type should provide "
      ++ "an \"is_type_of\" function."
  | unknownType abstract name =>
    "Abstract type \"" ++ abstract ++ "\" was resolved to a type \"" ++ name
      ++ "\" that does not exist inside the schema."
  | notObjectType abstract parent field shown received =>
    "Abstract type \"" ++ abstract ++ "\" must resolve to an Object type at runtime for field \""
      ++ parent ++ "." ++ field ++ "\" with value " ++ shown ++ ", received \"" ++ received ++ "\"."
  | notPossible type abstract =>
    "Runtime Object type \"" ++ type ++ "\" is not a possible type for \"" ++ abstract ++ "\"."
  | wrongType type shown =>
    "Expected value of type \"" ++ type ++ "\" but got: " ++ shown ++ "."

/-- The failure of a value; it names no nodes, so the position that it fails gives its own. -/
def CompletionProblem.failure (problem : CompletionProblem) : Failure :=
  .response { message := problem.message }

end GraphQL
