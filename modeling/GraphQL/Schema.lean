import GraphQL.Schema.TypeMap

/-!
Schemas: a layout of types together with its type map, which is worked out once.
-/

namespace GraphQL

structure Schema extends Layout where
  reached : Checked TypeMap
  reached_eq : reached = toLayout.typeMap

namespace Schema

def ofLayout (layout : Layout) : Schema := ⟨layout, layout.typeMap, rfl⟩

/-- The type of a name. -/
def type? (schema : Schema) (name : Value) : Checked (Option TypeId) :=
  schema.reached.map fun found => Value.lookup? found name

/-- The type of a name that a document gives. -/
def named? (schema : Schema) (name : String) : Checked (Option TypeId) := schema.type? (.str name)

/-- The root type for the kind of operation that a value names. -/
def rootNamed (schema : Schema) (name : Value) : Except Failure (Option Candidate) :=
  match OperationKind.all.find? fun kind => name.equals (.str kind.name) with
  | some kind => .ok (schema.root kind)
  | none => do
    let text ← name.text.mapError .value
    throw (.assertion (.operationKind text))

def directive? (schema : Schema) (name : String) : Option Directive :=
  schema.directives.find? fun directive => directive.name.equals (.str name)

/-- The possible types of an abstract type that a single type of the map contributes. -/
def contribution (schema : Schema) (name : Value) (id : TypeId) : Checked (List Candidate) := do
  match (schema.definition id).body with
  | .union members _ =>
    if (schema.definition id).name.equals name then members else return []
  | .object _ interfaces _ =>
    let implemented := (← interfaces).filter fun candidate =>
      candidate.named?.any fun interface => (schema.definition interface).name.equals name
    return implemented.map fun _ => .named id
  | _ => return []

/-- The object types that the values of an abstract type can have. -/
def possibleTypes (schema : Schema) (abstract : TypeId) : Checked (List Candidate) := do
  let name := (schema.definition abstract).name
  return (← (← schema.reached).mapM fun (_, id) => schema.contribution name id).flatten

/-- Whether a type is one of the possible types of an abstract type. -/
def isPossible (schema : Schema) (abstract type : TypeId) : Checked Bool := do
  return (← schema.possibleTypes abstract).any fun candidate => candidate.named? == some type

end Schema

end GraphQL
