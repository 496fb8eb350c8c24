/-!
References to types. A named type is known by its place among the declarations, so two types of one
name are different types; lists and non-null types are known by what they wrap.
-/

namespace GraphQL

/-- The scalar types that every schema can refer to without declaring them. -/
inductive Standard where
  | int
  | float
  | string
  | boolean
  | id
  | date
  | dateTime
  | decimal
deriving DecidableEq, Repr, Inhabited

namespace Standard

def name : Standard → String
  | int => "Int"
  | float => "Float"
  | string => "String"
  | boolean => "Boolean"
  | id => "ID"
  | date => "Date"
  | dateTime => "DateTime"
  | decimal => "Decimal"

/-- The five scalars of the specification, which a schema may override, in the order in which
messages list them. -/
def specified : List Standard := [string, int, float, boolean, id]

def isSpecified (scalar : Standard) : Bool := specified.contains scalar

def all : List Standard := [int, float, string, boolean, id, date, dateTime, decimal]

def ofName? (name : String) : Option Standard := all.find? (·.name == name)

end Standard

inductive TypeId where
  | standard (scalar : Standard)
  | declared (index : Nat)
deriving DecidableEq, Repr, Inhabited

/-- Why a schema, or a part of one, is not well-formed. The texts are the names and values that a
message shows. -/
inductive SchemaFault where
  | nonNullOfNonNull (inner : String)
  | wrappedNotType (wrapper found : String)
  | fieldTypeNotType (field found : String)
  | inputTypeNotType (input found : String)
  | badName (owner : Option String) (problem : String)
  | noSerialize (type : String)
  | halfParsed (type : String)
  | enumValuesNotIterable (type found : String)
  | enumNameNotText (type found : String)
  | noEnumValues (type : String)
  | reservedEnumName (type name : String)
  | inputsNotMapping (owner found : String)
  | inputNotType (owner name role found : String)
  | inputMisnamed (owner role declared name : String)
  | fieldsNotMapping (type : String)
  | fieldNotType (type field found : String)
  | fieldMisnamed (type field declared : String)
  | noFields (type : String)
  | fieldNotOutput (field type : String)
  | resolverNotFunction (field found : String)
  | complexityNotFunction (field found : String)
  | argumentNotInput (argument type : String)
  | inputFieldNotInput (field type : String)
  | interfacesNotIterable (type : String)
  | notInterface (type found : String)
  | interfaceTwice (type interface : String)
  | fieldMissing (interface field type : String)
  | fieldTypeMismatch (interface field expected type found : String)
  | argumentMissing (interface field argument type : String)
  | argumentTypeMismatch (interface field argument expected type found : String)
  | isTypeOfNotFunction (type found : String)
  | resolveTypeNotFunction (type found : String)
  | membersNotIterable (union : String)
  | noMembers (union : String)
  | memberNotObject (union found : String)
  | memberTwice (union member : String)
  | overrideNotLeaf (found : String)
  | overrideNotStandard (found : String)
  | namedTwice (name : String)
  | notNamedType (found : String)
  | noQuery
  | rootNotObject (operation found : String)
  | possibleTypeForeign (interface implementation : String)
  | directiveWithoutLocation (directive : String)
  | directiveArgumentName (argument problem : String)
  | directiveArgumentNotInput (argument type : String)
  | directiveTwice (directive : String)
  /-- Two names of the type map that have no order between them. -/
  | unorderedNames (left right : String)
  | unhashableName (kind : String)
deriving DecidableEq, Repr

inductive TypeRef where
  | named (id : TypeId)
  | list (of : TypeRef)
  | nonNull (of : TypeRef)
  /-- A place where a type was expected and none was found. -/
  | broken (fault : SchemaFault)
deriving DecidableEq, Repr, Inhabited

namespace TypeRef

def isNonNull : TypeRef → Bool
  | nonNull _ => true
  | _ => false

/-- The type without its outer non-null wrapper. -/
def nullable : TypeRef → TypeRef
  | nonNull of => of
  | type => type

/-- The named type inside all wrappers. -/
def innermost : TypeRef → Except SchemaFault TypeId
  | named id => .ok id
  | list of => of.innermost
  | nonNull of => of.innermost
  | broken fault => .error fault

def depth : TypeRef → Nat
  | list of => of.depth + 1
  | nonNull of => of.depth + 1
  | _ => 0

end TypeRef

end GraphQL
