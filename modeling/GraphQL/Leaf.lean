import GraphQL.Action
import GraphQL.Leaf.Standard
import GraphQL.Value.Key

/-!
Leaf types of a schema: the standard scalars, custom scalars, whose functions the application has,
and enums, which are written by name and stand for arbitrary internal values.
-/

namespace GraphQL

namespace EnumValue

abbrev Store := KeyedStore Value Bucket EnumValue

/-- The enum values by what they stand for. -/
def store (values : Table EnumValue) : Except ValueFault Store :=
  values.items.foldlM (fun made value =>
    match Value.keyFault? made value.value with
    | some fault => .error fault
    | none => .ok (made.set value.value value)) (.empty defaultKeys)

def serialize (values : Table EnumValue) (value : Value) : Except Failure Value := do
  let store ← Leaf.liftFault (store values)
  match Value.keyFault? store value with
  | some fault => throw (.value fault)
  | none =>
    match store.get? value with
    | some found => return found.name
    | none => Leaf.cannotWrite (.noEnum value.shown)

def parseValue (values : Table EnumValue) (value : Value) : Except Failure Value :=
  match value.string?.bind values.find? with
  | some found => .ok found.value
  | none => Leaf.cannotRead (.notInEnum value.shown)

def parseLiteral (values : Table EnumValue) (literal : Literal) : Except Failure Value :=
  match literal with
  | .enum _ name =>
    match values.find? name with
    | some found => .ok found.value
    | none => Leaf.cannotRead .notInEnumLiteral
  | _ => Leaf.cannotRead .notInEnumLiteral

end EnumValue

/-- Calls what stands in a slot. -/
def Slot.ask (slot : Slot) (asked : Nat → Call) : Action Value :=
  match slot with
  | .function id => .ask (asked id)
  | .other value => .fail (.value (.uncallable value.typeName))
  | .absent => .fail (.value (.uncallable Value.null.typeName))

namespace Layout

/-- The internal value in the form that a response shows. -/
def serialize (layout : Layout) (leaf : TypeId) (value : Value) : Action Value :=
  match (layout.definition leaf).body with
  | .scalar (.standard scalar) => .done (scalar.serialize value)
  | .scalar (.custom serialize _ _) => serialize.ask fun id => .serialize id value
  | .enum values => do
    let values ← values
    EnumValue.serialize values value
  | _ => .fail (.assertion (.outputType (layout.label leaf)))

/-- The internal value of a runtime input. A custom scalar without a function of its own takes
inputs as they are. -/
def parseValue (layout : Layout) (leaf : TypeId) (value : Value) : Action Value :=
  match (layout.definition leaf).body with
  | .scalar (.standard scalar) => .done (scalar.parseValue value)
  | .scalar (.custom _ .absent _) => return value
  | .scalar (.custom _ parse _) => parse.ask fun id => .parseValue id value
  | .enum values => do
    let values ← values
    EnumValue.parseValue values value
  | _ => .fail (.assertion (.inputType (layout.label leaf)))

/-- The internal value of a literal. A custom scalar without a function of its own takes literals
as plain values. -/
def parseLiteral (layout : Layout) (leaf : TypeId) (literal : Literal) (vars : Variables) :
    Action Value :=
  match (layout.definition leaf).body with
  | .scalar (.standard scalar) => .done (scalar.parseLiteral literal)
  | .scalar (.custom _ _ .absent) => do return ← literal.untyped vars
  | .scalar (.custom _ _ parse) => parse.ask fun id => .parseLiteral id literal vars
  | .enum values => do
    let values ← values
    EnumValue.parseLiteral values literal
  | _ => .fail (.assertion (.inputType (layout.label leaf)))

end Layout

end GraphQL
