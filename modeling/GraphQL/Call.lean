import GraphQL.Document.Untyped
import GraphQL.Schema

/-!
Calls of the application: the moments at which the library hands over to resolvers, to the functions
of custom types and to complexity rules. A call is data, so that what a request asks of the
application can be listed and compared.
-/

namespace GraphQL

/-- What stays the same while one operation is executed. -/
structure Environment where
  schema : Schema
  fragments : List Fragment
  operation : Operation
  root : Value
  context : Value
  vars : Variables
  /-- Resolves the fields that have no resolver of their own. -/
  fieldResolver : Option Nat
  /-- Resolves the abstract types that have no type resolver of their own. -/
  typeResolver : Option Nat

/-- What a resolver learns about the field that it resolves. -/
structure Info where
  environment : Environment
  fieldName : String
  nodes : List FieldNode
  returnType : TypeRef
  parentType : TypeId
  path : ResponsePath

inductive Call where
  | resolve (function : Nat) (source arguments : Value) (info : Info)
  /-- Invokes a callable that was found in place of a field's value. -/
  | invoke (handle : Nat) (arguments : Value) (info : Info)
  /-- Asks for the type of a value of an abstract type; `none` asks for any abstract type. -/
  | resolveType (function : Nat) (abstract : Option TypeId) (value : Value) (info : Info)
  | isTypeOf (function : Nat) (type : TypeId) (value : Value) (info : Info)
  | serialize (function : Nat) (value : Value)
  | parseValue (function : Nat) (value : Value)
  | parseLiteral (function : Nat) (literal : Literal) (vars : Variables)
  | complexity (function : Nat) (child arguments : Value)

end GraphQL
