import GraphQL.Failure

/-!
The kinds and names of the declared types. A catalog is all it takes to write a type down: its text
in a message, and the value by which application code passes it on.
-/

namespace GraphQL

inductive TypeKind where
  | scalar
  | enum
  | object
  | interface
  | union
  | input
deriving DecidableEq, Repr

namespace TypeKind

def className : TypeKind → String
  | scalar => "ScalarType"
  | enum => "EnumType"
  | object => "ObjectType"
  | interface => "InterfaceType"
  | union => "UnionType"
  | input => "InputObjectType"

/-- The kinds whose values are written and read as a whole. -/
def isLeaf : TypeKind → Bool
  | scalar | enum => true
  | _ => false

/-- The kinds whose values a document selects fields of. -/
def isComposite : TypeKind → Bool
  | object | interface | union => true
  | _ => false

def isAbstract : TypeKind → Bool
  | interface | union => true
  | _ => false

/-- The kinds of values that a request can supply. -/
def isInput : TypeKind → Bool
  | scalar | enum | input => true
  | _ => false

/-- The kinds of values that a response can hold. -/
def isOutput (kind : TypeKind) : Bool := kind.isLeaf || kind.isComposite

end TypeKind

abbrev Checked := Except SchemaFault

/-- What stands where a type is expected. -/
inductive Candidate where
  | type (ref : TypeRef)
  | other (value : Value)
deriving Inhabited

def Candidate.named (id : TypeId) : Candidate := type (.named id)

def Candidate.named? : Candidate → Option TypeId
  | type (.named id) => some id
  | _ => none

/-- What stands in the place of a type, as application code passes it on. -/
def Candidate.ofValue : Value → Candidate
  | .type ref _ _ => type ref
  | value => other value

/-- A name in a message. -/
def nameText (name : Value) : String :=
  match name.text with
  | .ok text => text
  | .error _ => name.instanceText

structure Catalog where
  declared : Array (TypeKind × Value)

namespace Catalog

def kind (catalog : Catalog) : TypeId → TypeKind
  | .standard _ => .scalar
  | .declared index => (catalog.declared[index]?.map (·.1)).getD .scalar

def name (catalog : Catalog) : TypeId → Value
  | .standard scalar => .str scalar.name
  | .declared index => (catalog.declared[index]?.map (·.2)).getD .null

/-- The written form of a type. -/
def text (catalog : Catalog) : TypeRef → Except Failure String
  | .named id =>
    match catalog.name id with
    | .str name => .ok name
    | other => .error (.value (.namelessType other.typeName))
  | .list of => (catalog.text of).map fun inner => "[" ++ inner ++ "]"
  | .nonNull of => (catalog.text of).map fun inner => inner ++ "!"
  | .broken fault => .error (.schema fault)

def className (catalog : Catalog) : TypeRef → String
  | .named id => (catalog.kind id).className
  | .list _ => "ListType"
  | .nonNull _ => "NonNullType"
  | .broken _ => "NoneType"

def typeText (catalog : Catalog) (ref : TypeRef) : TypeText :=
  match catalog.text ref with
  | .ok text => .shown text
  | .error (.value (.namelessType nameClass)) => .nameless nameClass
  | .error _ => .nameless (catalog.className ref)

/-- The type as a value. -/
def value (catalog : Catalog) (ref : TypeRef) : Value :=
  .type ref (catalog.className ref) (catalog.typeText ref)

def candidateValue (catalog : Catalog) : Candidate → Value
  | .type ref => catalog.value ref
  | .other value => value

/-- A type in an error message. -/
def shown (catalog : Catalog) (ref : TypeRef) : String := (catalog.value ref).shown

def candidateShown (catalog : Catalog) (candidate : Candidate) : String :=
  (catalog.candidateValue candidate).shown

end Catalog

end GraphQL
