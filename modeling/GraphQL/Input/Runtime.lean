import GraphQL.Leaf
import GraphQL.Schema.Subtype
import GraphQL.Value.Parts

/-!
Runtime inputs, such as the values of variables, coerced to an input type. A value that does not
match fails with the path to the first part at fault, and that part.
-/

namespace GraphQL

namespace Input

abbrev Coercion := TypeRef → List PathKey → Action Value

def invalid (problem : InputProblem) (path : List PathKey) (value : Value) : Action α :=
  .fail (.input ⟨problem, path, value⟩)

/-- How the parts of a value are coerced: the items of a list, and the fields of a map. -/
structure ValueParts where
  items : Option Coercion := none
  fields : Option (TypeId → Table InputValue → List PathKey → Action Value) := none

def coerceLeaf (layout : Layout) (value : Value) (leaf : TypeId) (path : List PathKey) :
    Action Value :=
  let inEffect := layout.leafInEffect leaf
  (layout.parseValue inEffect value).andThen fun
    | .ok parsed => return parsed
    | .error failure =>
      if failure.kind.rejectsInput then
        invalid (.leaf (layout.label inEffect) failure.message) path value
      else .fail failure

/-- Coerces a value that is not null to a named type. -/
def coerceNamed (layout : Layout) (value : Value) (parts : ValueParts) (id : TypeId)
    (path : List PathKey) : Action Value :=
  match (layout.definition id).body with
  | .input fields =>
    match parts.fields with
    | some coerce => do coerce id (← fields) path
    | none => invalid (.notMapping (layout.label id)) path value
  | .scalar _ | .enum _ => coerceLeaf layout value id path
  | _ => do .fail (.assertion (.inputType (← layout.text (.named id))))

/-- Coerces a value through the wrappers of a type. A single value is accepted where a list is
expected. -/
def coerceThrough (layout : Layout) (value : Value) (parts : ValueParts) : Coercion
  | .nonNull of, path =>
    if value.isNull then do
      invalid (.nullForNonNull (← layout.text (.nonNull of))) path value
    else coerceThrough layout value parts of path
  | .list of, path =>
    if value.isNull then return .null
    else
      match parts.items with
      | some coerce => do coerce (← of.present) path
      | none => do return .list [← coerceThrough layout value parts of path]
  | .named id, path =>
    if value.isNull then return .null else coerceNamed layout value parts id path
  | .broken fault, _ => .fail (.schema fault)

/-- Refuses the first key of a map that no field is declared for. -/
def refuseUnknown (type : String) (fields : Table InputValue) (path : List PathKey)
    (value : Value) : List Value → Action Unit
  | [] => return
  | key :: rest =>
    if fields.contains key then refuseUnknown type fields path value rest
    else do invalid (.unknownField (← key.text) type) path value

/-- Coerces the declared fields one after the other. A field that is left out takes its default. -/
def coerceDeclared (layout : Layout) (value : Value) (given : List (Value × Coercion))
    (path : List PathKey) :
    List (Value × InputValue) → List (Value × Value) → Action (List (Value × Value))
  | [], made => return made
  | (name, field) :: rest, made =>
    match Value.lookup? given name with
    | some coerce => do
      let coerced ← coerce (← field.type) (path ++ [.name (nameText name)])
      coerceDeclared layout value given path rest (made ++ [(name, coerced)])
    | none =>
      if field.hasDefault then
        coerceDeclared layout value given path rest (made ++ [(name, field.default)])
      else do
        let type ← field.type
        if type.isNonNull then
          invalid (.fieldMissing (nameText name) (← layout.text type)) path value
        else coerceDeclared layout value given path rest made

def coerceObject (layout : Layout) (value : Value) (given : List (Value × Coercion)) (id : TypeId)
    (fields : Table InputValue) (path : List PathKey) : Action Value := do
  let made ← coerceDeclared layout value given path fields.entries []
  refuseUnknown (layout.label id) fields path value (given.map (·.1))
  return .map made

/-- Coerces items, the first of which has the given index. -/
def coerceEach : List Coercion → Int → TypeRef → List PathKey → Action (List Value)
  | [], _, _, _ => return []
  | coerce :: rest, index, type, path => do
    let item ← coerce type (path ++ [.index index])
    return item :: (← coerceEach rest (index + 1) type path)

def listOf (items : List Coercion) : ValueParts where
  items := some fun type path => return .list (← coerceEach items 0 type path)

/-- Coerces a value that has no parts. -/
def coerceAtom (layout : Layout) (value : Value) : Coercion := coerceThrough layout value {}

mutual

/-- Coerces a runtime value to a type. -/
def coerce (layout : Layout) (value : Value) : Coercion :=
  match value with
  | .list items => coerceThrough layout (.list items) (listOf (itemCoercions layout items))
  | .growing handle items =>
    coerceThrough layout (.growing handle items) (listOf (itemCoercions layout items))
  | .tuple items => coerceThrough layout (.tuple items) (listOf (itemCoercions layout items))
  | .set items identity =>
    coerceThrough layout (.set items identity) (listOf (itemCoercions layout items))
  | .bytes content =>
    coerceThrough layout (.bytes content)
      (listOf (content.map fun byte => coerceAtom layout (.int byte.toNat)))
  | .map entries =>
    coerceThrough layout (.map entries)
      { fields := some (coerceObject layout (.map entries) (entryCoercions layout entries)) }
  | other => coerceAtom layout other

def itemCoercions (layout : Layout) : List Value → List Coercion
  | [] => []
  | item :: rest => coerce layout item :: itemCoercions layout rest

def entryCoercions (layout : Layout) : List (Value × Value) → List (Value × Coercion)
  | [] => []
  | (key, item) :: rest => (key, coerce layout item) :: entryCoercions layout rest

end

end Input

end GraphQL
