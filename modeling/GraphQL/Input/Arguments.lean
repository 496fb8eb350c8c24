import GraphQL.Document.Printer
import GraphQL.Input.Literal

/-!
Arguments: the values that a field or a directive receives for the arguments that its definition
declares. A fault is reported at the argument's value, or at the node that leaves an argument out.
-/

namespace GraphQL

namespace Input

inductive ArgumentProblem where
  | missing (type : String)
  | unboundVariable (variable_ type : String)
  | null (type : String)
  | invalid (literal : String)

def ArgumentProblem.message (name : String) : ArgumentProblem → String
  | missing type =>
    "Argument \"" ++ name ++ "\" of required type \"" ++ type ++ "\" was not provided."
  | unboundVariable variable_ type =>
    "Argument \"" ++ name ++ "\" of required type \"" ++ type ++ "\" was provided the variable \"$"
      ++ variable_ ++ "\" which was not provided a runtime value."
  | null type => "Argument \"" ++ name ++ "\" of non-null type \"" ++ type ++ "\" must not be null."
  | invalid literal => "Argument \"" ++ name ++ "\" has invalid value " ++ literal ++ "."

def refuseArgument (node : Nat) (name : Value) (problem : ArgumentProblem) : Action α :=
  .fail (.response { message := problem.message (nameText name), nodes := [node] })

/-- An argument without a value of its own takes its default; a required one has none. -/
def omitted (argument : InputValue) (refuse : TypeRef → Action (Option Value)) :
    Action (Option Value) :=
  if argument.hasDefault then return some argument.default
  else do
    let type ← argument.type
    if type.isNonNull then refuse type else return none

def isNullVariable (vars : Variables) : Literal → Bool
  | .reference _ name => (vars.lookup name).any Value.isNull
  | _ => false

/-- The value of an argument that is written with a literal. -/
def readArgument (layout : Layout) (vars : Variables) (name : Value) (type : TypeRef)
    (literal : Literal) : Action (Option Value) := do
  if (literal.isNull || isNullVariable vars literal) && type.isNonNull then
    refuseArgument literal.start name (.null (← layout.text type))
  else
    let value ← readLiteral layout vars literal type
    if value.isUndefined then refuseArgument literal.start name (.invalid literal.print)
    else return some value

/-- Binds one declared argument; `none` when it is left out. -/
def bindArgument (layout : Layout) (vars : Variables) (node : Nat)
    (given : List ArgumentNode) (name : Value) (argument : InputValue) : Action (Option Value) := do
  let type ← argument.type
  match given.reverse.find? fun found => name.equals (.str found.name) with
  | none =>
    omitted argument fun type => do
      refuseArgument node name (.missing (← layout.text type))
  | some found =>
    match found.value.reference?.filter fun variable_ => (vars.lookup variable_).isNone with
    | some variable_ =>
      omitted argument fun type => do
        refuseArgument found.value.start name (.unboundVariable variable_ (← layout.text type))
    | none => readArgument layout vars name type found.value

/-- Binds the declared arguments in their order. -/
def bindArguments (layout : Layout) (vars : Variables) (node : Nat)
    (given : List ArgumentNode) : List (Value × InputValue) → Action (List (Value × Value))
  | [] => return []
  | (name, argument) :: rest => do
    match ← bindArgument layout vars node given name argument with
    | some value => return (name, value) :: (← bindArguments layout vars node given rest)
    | none => bindArguments layout vars node given rest

/-- The arguments of a node, by the declaration of what it selects. -/
def arguments (layout : Layout) (vars : Variables) (node : Nat) (given : List ArgumentNode)
    (declared : Inputs) : Action (List (Value × Value)) := do
  bindArguments layout vars node given (← declared).entries

/-- The arguments of a directive, if it stands on a node. -/
def directiveArguments (layout : Layout) (vars : Variables) (directive : Directive)
    (directives : List DirectiveNode) : Action (Option (List (Value × Value))) := do
  match directives.find? fun node => directive.name.equals (.str node.name) with
  | none => return none
  | some node =>
    return some (← arguments layout vars node.start node.arguments directive.arguments)

end Input

end GraphQL
