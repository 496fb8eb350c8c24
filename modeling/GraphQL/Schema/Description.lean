import GraphQL.Schema

/-!
Descriptions of types: all that a declaration says, with the parts worked out that it left open. A
description is made only of names, texts and values.
-/

namespace GraphQL

structure InputDescription where
  name : Value
  type : String
  required : Bool
  default : Value

structure FieldDescription where
  name : Value
  type : String
  arguments : List InputDescription
  deprecated : Bool

inductive BodyDescription where
  | scalar
  | enum (values : List EnumValue)
  | fields (interfaces : List String) (fields : List FieldDescription)
  | union (members : List String)
  | input (fields : List InputDescription)

namespace Layout

variable (layout : Layout)

def describeInput (name : Value) (input : InputValue) : Except Failure InputDescription := do
  let type ← input.type.mapError .schema
  return ⟨name, ← layout.text type, input.isRequired type, input.default⟩

def describeInputs (inputs : Inputs) : Except Failure (List InputDescription) := do
  let table ← inputs.mapError .schema
  table.entries.mapM fun (name, input) => layout.describeInput name input

def describeField (name : Value) (field : Field) : Except Failure FieldDescription := do
  let type ← field.type.mapError .schema
  return ⟨name, ← layout.text type, ← layout.describeInputs field.arguments,
    field.isDeprecated⟩

def describeCandidates (candidates : Checked (List Candidate)) : Except Failure (List String) := do
  (← candidates.mapError .schema).mapM layout.candidateText

def describeFields (fields : Checked (Table Field)) (interfaces : Checked (List Candidate)) :
    Except Failure BodyDescription := do
  let interfaces ← layout.describeCandidates interfaces
  let table ← fields.mapError .schema
  return .fields interfaces
    (← table.entries.mapM fun (name, field) => layout.describeField name field)

def describe (body : TypeBody) : Except Failure BodyDescription := do
  match body with
  | .scalar _ => return .scalar
  | .enum values => return .enum ((← values.mapError .schema).entries.map (·.2))
  | .object fields interfaces _ => layout.describeFields fields interfaces
  | .interface fields interfaces _ => layout.describeFields fields interfaces
  | .union members _ => return .union (← layout.describeCandidates members)
  | .input fields => return .input (← layout.describeInputs fields)

end Layout

end GraphQL
