import GraphQL.Document
import GraphQL.Schema.Catalog
import GraphQL.Schema.Table

/-!
What a schema is made of: the declared types with their fields, members and values, the root types
and the directives. Parts that a declaration left to be worked out on first use are `Checked`: they
hold either what was meant or the fault that the first use meets.
-/

namespace GraphQL

/-- A place for a function of the application. -/
inductive Slot where
  | absent
  | function (id : Nat)
  | other (value : Value)

namespace Slot

def isAbsent : Slot → Bool
  | absent => true
  | _ => false

def isCallable : Slot → Bool
  | function _ => true
  | other value => value.isCallable
  | absent => false

/-- What stands in the place, as a message shows it. -/
def shown : Slot → String
  | other value => value.shown
  | _ => Value.null.shown

end Slot

/-- An argument or an input field. Without a default, `default` is `undefined`. -/
structure InputValue where
  name : Value
  type : Checked TypeRef
  default : Value

namespace InputValue

def hasDefault (input : InputValue) : Bool := !input.default.isUndefined

def isRequired (input : InputValue) (type : TypeRef) : Bool :=
  type.isNonNull && !input.hasDefault

end InputValue

abbrev Inputs := Checked (Table InputValue)

structure Field where
  name : Value
  type : Checked TypeRef
  arguments : Inputs
  resolve : Slot
  complexity : Slot
  deprecated : Option String

structure EnumValue where
  name : Value
  value : Value
  deprecated : Option String

/-- An empty reason does not deprecate anything. -/
def Field.isDeprecated (field : Field) : Bool := field.deprecated.any (· ≠ "")

def EnumValue.isDeprecated (value : EnumValue) : Bool := value.deprecated.any (· ≠ "")

inductive ScalarRule where
  | standard (scalar : Standard)
  | custom (serialize parseValue parseLiteral : Slot)

inductive TypeBody where
  | scalar (rule : ScalarRule)
  | enum (values : Checked (Table EnumValue))
  | object (fields : Checked (Table Field)) (interfaces : Checked (List Candidate))
      (isTypeOf : Slot)
  | interface (fields : Checked (Table Field)) (interfaces : Checked (List Candidate))
      (resolveType : Slot)
  | union (members : Checked (List Candidate)) (resolveType : Slot)
  | input (fields : Inputs)

structure TypeDef where
  name : Value
  body : TypeBody

namespace TypeDef

def kind (type : TypeDef) : TypeKind :=
  match type.body with
  | .scalar _ => .scalar
  | .enum _ => .enum
  | .object .. => .object
  | .interface .. => .interface
  | .union .. => .union
  | .input _ => .input

def ofStandard (scalar : Standard) : TypeDef := ⟨.str scalar.name, .scalar (.standard scalar)⟩

/-- Stands for a type that was never declared. -/
def undeclared : TypeDef := ⟨.null, .scalar (.custom .absent .absent .absent)⟩

/-- The fields of an object or interface type. -/
def fields? (type : TypeDef) : Option (Checked (Table Field)) :=
  match type.body with
  | .object fields _ _ => some fields
  | .interface fields _ _ => some fields
  | _ => none

def interfaces (type : TypeDef) : Checked (List Candidate) :=
  match type.body with
  | .object _ interfaces _ => interfaces
  | .interface _ interfaces _ => interfaces
  | _ => .ok []

/-- The name of the type in a message. -/
def label (type : TypeDef) : String := nameText type.name

end TypeDef

structure Directive where
  name : Value
  locations : List String
  arguments : Inputs

namespace Directive

def text (directive : Directive) : String := "@" ++ nameText directive.name

private def conditionOn (name : String) : Directive where
  name := .str name
  locations := ["FIELD", "FRAGMENT_SPREAD", "INLINE_FRAGMENT"]
  arguments := .ok <| .ofList
    [(.str "if", ⟨.str "if", .ok (.nonNull (.named (.standard .boolean))), .undefined⟩)]

/-- Keeps a selection when its condition holds. -/
def includeWhen : Directive := conditionOn "include"

/-- Drops a selection when its condition holds. -/
def skipWhen : Directive := conditionOn "skip"

def deprecation : Directive where
  name := .str "deprecated"
  locations := ["FIELD_DEFINITION", "ARGUMENT_DEFINITION", "INPUT_FIELD_DEFINITION", "ENUM_VALUE"]
  arguments := .ok <| .ofList
    [(.str "reason",
      ⟨.str "reason", .ok (.named (.standard .string)), .str "No longer supported"⟩)]

def specified : List Directive := [includeWhen, skipWhen, deprecation]

end Directive

structure Layout where
  types : Array TypeDef
  query : Option Candidate
  mutation : Option Candidate
  subscription : Option Candidate
  extra : List Candidate
  directives : List Directive
  /-- The types that take the place of specified scalars; the first entry for a scalar counts. -/
  overrides : List (Standard × TypeId)
  assumeValid : Bool

namespace Layout

def definition (layout : Layout) : TypeId → TypeDef
  | .standard scalar => .ofStandard scalar
  | .declared index => (layout.types[index]?).getD .undeclared

def catalog (layout : Layout) : Catalog := ⟨layout.types.map fun type => (type.kind, type.name)⟩

/-- The leaf type that stands for a type in this schema. -/
def leafInEffect (layout : Layout) : TypeId → TypeId
  | .standard scalar => (layout.overrides.lookup scalar).getD (.standard scalar)
  | id => id

def root (layout : Layout) : OperationKind → Option Candidate
  | .query => layout.query
  | .mutation => layout.mutation
  | .subscription => layout.subscription

def text (layout : Layout) (ref : TypeRef) : Except Failure String := layout.catalog.text ref

/-- The written form of what stands where a type is expected. -/
def candidateText (layout : Layout) : Candidate → Except Failure String
  | .type ref => layout.text ref
  | .other value => value.text.mapError .value

/-- The type in an error message. -/
def shown (layout : Layout) (ref : TypeRef) : String := layout.catalog.shown ref

/-- The name of a type in an error message. -/
def label (layout : Layout) (id : TypeId) : String := (layout.definition id).label

end Layout

end GraphQL
