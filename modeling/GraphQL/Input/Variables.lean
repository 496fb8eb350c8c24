import GraphQL.Input.Literal
import GraphQL.Input.Runtime

/-!
The values of an operation's variables. Either every variable that is supplied or has a default gets
a value, or the errors of all variables at fault are reported, in the order of their definitions.
-/

namespace GraphQL

namespace Schema

/-- The type that a document writes, if the schema has it. -/
def typeOfNode (schema : Schema) : TypeNode → Checked (Option TypeRef)
  | .named _ name => do return (← schema.named? name).map .named
  | .list _ of => do return (← schema.typeOfNode of).map .list
  | .nonNull of => do return (← schema.typeOfNode of).map .nonNull

end Schema

namespace Input

/-- Puts the value of a variable: one defined twice keeps its place and takes the later value. -/
def putVariable (vars : Variables) (name : String) (value : Value) : Variables :=
  match vars with
  | [] => [(name, value)]
  | (key, old) :: rest =>
    if key = name then (key, value) :: rest else (key, old) :: putVariable rest name value

/-- The keys of an error path after the name of the variable. -/
def pathSuffix (path : List PathKey) : String :=
  String.join <| path.map fun
    | .name key => "." ++ key
    | .index position => "[" ++ toString position ++ "]"

inductive VariableProblem where
  | notInput (type : String)
  | missing (type : String)
  | null (type : String)
  | invalid (fault : InputFault)

def VariableProblem.message (name : String) : VariableProblem → String
  | notInput type =>
    "Variable \"$" ++ name ++ "\" expected value of type \"" ++ type
      ++ "\" which cannot be used as an input type."
  | missing type =>
    "Variable \"$" ++ name ++ "\" of required type \"" ++ type ++ "\" was not provided."
  | null type =>
    "Variable \"$" ++ name ++ "\" of non-null type \"" ++ type ++ "\" must not be null."
  | invalid fault =>
    "Variable \"$" ++ name ++ "\" got invalid value " ++ fault.value.shown
      ++ (if fault.path.isEmpty then "" else " at \"" ++ name ++ pathSuffix fault.path ++ "\"")
      ++ "; " ++ fault.problem.message

/-- The error that reports a variable at fault. -/
def variableError (node : VariableNode) (problem : VariableProblem) : ResponseError where
  message := problem.message node.name
  nodes := match problem with
    | .notInput _ => [node.type.start]
    | _ => [node.start]
  origin := match problem with
    | .invalid _ => some .input
    | _ => none

/-- What becomes of one variable. -/
inductive Binding where
  | bound (value : Value)
  | omitted
  | refused (problem : VariableProblem)

def bindSupplied (schema : Schema) (type : TypeRef) (raw : Value) : Action Binding :=
  if raw.isNull && type.isNonNull then do return .refused (.null (← schema.text type))
  else
    (coerce schema.toLayout raw type []).andThen fun
      | .ok value => return .bound value
      | .error (.input fault) => return .refused (.invalid fault)
      | .error failure => .fail failure

def bindVariable (schema : Schema) (raw : List (Value × Value)) (node : VariableNode) :
    Action Binding := do
  match ← schema.typeOfNode node.type with
  | none => return .refused (.notInput node.type.print)
  | some type =>
    if !(← schema.isInputType type) then return .refused (.notInput node.type.print)
    else
      match Value.lookup? raw (.str node.name) with
      | some value => bindSupplied schema type value
      | none =>
        match node.default with
        | some literal => return .bound (← readLiteral schema.toLayout [] literal type)
        | none =>
          if type.isNonNull then return .refused (.missing (← schema.text type))
          else return .omitted

/-- Binds the variables one after the other, collecting values and errors. -/
def bindVariables (schema : Schema) (raw : List (Value × Value)) :
    List VariableNode → Variables → List ResponseError →
      Action (Except (List ResponseError) Variables)
  | [], made, [] => return .ok made
  | [], _, errors => return .error errors
  | node :: rest, made, errors => do
    match ← bindVariable schema raw node with
    | .bound value => bindVariables schema raw rest (putVariable made node.name value) errors
    | .omitted => bindVariables schema raw rest made errors
    | .refused problem =>
      bindVariables schema raw rest made (errors ++ [variableError node problem])

/-- Coerces the raw values that were supplied for an operation. -/
def coerceVariables (schema : Schema) (operation : Operation) (raw : List (Value × Value)) :
    Action (Except (List ResponseError) Variables) :=
  bindVariables schema raw operation.variableNodes [] []

end Input

end GraphQL
