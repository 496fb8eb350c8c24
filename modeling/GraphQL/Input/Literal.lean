import GraphQL.Leaf
import GraphQL.Schema.Subtype

/-!
Literals read as values of an input type. The result is `undefined` where a literal is no value of
the type. Variables stand for their values, which are taken as they are.
-/

namespace GraphQL

namespace Input

/-- Whether a literal is a variable without a value. -/
def isMissing (vars : Variables) : Literal → Bool
  | .reference _ name => (vars.lookup name).isNone
  | _ => false

abbrev Reader := TypeRef → Action Value

/-- How the parts of a literal are read: the items of a list, and the fields of an object. -/
structure Parts where
  items : Option Reader := none
  fields : Option (TypeId → Table InputValue → Action Value) := none

/-- Reads a literal as a leaf. A rejected literal is no value. -/
def readLeaf (layout : Layout) (vars : Variables) (literal : Literal) (leaf : TypeId) :
    Action Value :=
  (layout.parseLiteral (layout.leafInEffect leaf) literal vars).andThen fun
    | .ok value => return value
    | .error failure => if failure.kind.rejectsInput then return .undefined else .fail failure

/-- Reads a literal that is not null as a value of a named type. -/
def readNamed (layout : Layout) (vars : Variables) (literal : Literal) (parts : Parts)
    (id : TypeId) : Action Value :=
  match (layout.definition id).body with
  | .input fields =>
    match parts.fields with
    | some read => do read id (← fields)
    | none => return .undefined
  | .scalar _ | .enum _ => readLeaf layout vars literal id
  | _ => do .fail (.assertion (.inputType (← layout.text (.named id))))

/-- Reads a literal through the wrappers of a type. A single value is accepted where a list is
expected. -/
def readThrough (layout : Layout) (vars : Variables) (literal : Literal) (parts : Parts) :
    Reader
  | .nonNull of =>
    if literal.isNull then return .undefined
    else readThrough layout vars literal parts of
  | .list of =>
    if literal.isNull then return .null
    else
      match parts.items with
      | some read => do read (← of.present)
      | none => do
        let single ← readThrough layout vars literal parts of
        if single.isUndefined then return .undefined else return .list [single]
  | .named id =>
    if literal.isNull then return .null else readNamed layout vars literal parts id
  | .broken fault => .fail (.schema fault)

/-- The value of a variable at a place of a type. -/
def readReference (vars : Variables) (name : String) : Reader := fun type =>
  match vars.lookup name with
  | none => return .undefined
  | some value => if value.isNull && type.isNonNull then return .undefined else return value

/-- A literal of an object field, together with its reader. -/
structure FieldReader where
  missing : Bool
  read : Reader

/-- Reads the declared fields one after the other. A field that is left out takes its default. -/
def readDeclared (given : List (String × FieldReader)) :
    List (Value × InputValue) → List (Value × Value) → Action Value
  | [], made => return .map made
  | (name, field) :: rest, made =>
    match (name.string?.bind fun key => given.lookup key).filter (!·.missing) with
    | some reader => do
      let value ← reader.read (← field.type)
      if value.isUndefined then return .undefined
      else readDeclared given rest (made ++ [(name, value)])
    | none =>
      if field.hasDefault then readDeclared given rest (made ++ [(name, field.default)])
      else do
        let type ← field.type
        if type.isNonNull then return .undefined else readDeclared given rest made

/-- Reads an object of which every field is declared. Of a field given twice the last one counts. -/
def readObject (given : List (String × FieldReader)) (fields : Table InputValue) : Action Value :=
  if given.any fun field => (fields.find? field.1).isNone then return .undefined
  else readDeclared given.reverse fields.entries []

mutual

/-- Reads a literal as a value of a type. -/
def readLiteral (layout : Layout) (vars : Variables) (literal : Literal) : Reader :=
  match literal with
  | .reference _ name => readReference vars name
  | .list start items =>
    readThrough layout vars (.list start items)
      { items := some fun type => readItems layout vars items type [] }
  | .object start fields =>
    readThrough layout vars (.object start fields)
      { fields := some fun _ declared => readObject (fieldReaders layout vars fields) declared }
  | other => readThrough layout vars other {}

/-- Reads the items of a list. A missing variable counts as null among nullable items. -/
def readItems (layout : Layout) (vars : Variables) (items : List Literal) (type : TypeRef)
    (made : List Value) : Action Value :=
  match items with
  | [] => return .list made
  | item :: rest =>
    if isMissing vars item then
      if type.isNonNull then return .undefined
      else readItems layout vars rest type (made ++ [.null])
    else do
      let value ← readLiteral layout vars item type
      if value.isUndefined then return .undefined
      else readItems layout vars rest type (made ++ [value])

def fieldReaders (layout : Layout) (vars : Variables) :
    List (String × Literal) → List (String × FieldReader)
  | [] => []
  | (name, literal) :: rest =>
    (name, ⟨isMissing vars literal, readLiteral layout vars literal⟩)
      :: fieldReaders layout vars rest

end

end Input

end GraphQL
