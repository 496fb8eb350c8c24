import GraphQL.Calendar.Timestamp
import GraphQL.Number.Decimal
import GraphQL.Path
import GraphQL.TypeRef

/-!
The values that resolvers, variables and enum declarations deal in. Values are finite data: whatever
acts or waits (callables, iterators, deferred results) appears in them as a handle that the
application answers for. Objects, sets and errors have an identity, so two alike may still differ; so
do numbers, since one that is no number equals none but is the same as itself.
-/

namespace GraphQL

/-- The kind of an error, which clients and messages see as its class. -/
inductive FailureKind where
  | value
  | key
  | type
  | runtime
  | serialization
  | parse
  | coercion
  | invariant
  | response
  | assertion
  | input
  | queryCost
  | undefined
  | overflow
  | invalidOperation
  | noAttribute
  | index
  | asynchronous
  /-- Outside everything that execution handles. -/
  | fatal
deriving DecidableEq, Repr, Inhabited

namespace FailureKind

def all : List FailureKind :=
  [value, key, type, runtime, serialization, parse, coercion, invariant, response, assertion, input,
    queryCost, undefined, overflow, invalidOperation, noAttribute, index, asynchronous, fatal]

def className : FailureKind → String
  | value => "ValueError"
  | key => "KeyError"
  | type => "TypeError"
  | runtime => "RuntimeError"
  | serialization => "SerializationError"
  | parse => "ParseValueError"
  | coercion => "CoercionError"
  | invariant => "InvariantViolation"
  | response => "GraphQLError"
  | assertion => "AssertionError"
  | input => "InvalidInputValueError"
  | queryCost => "QueryCostError"
  | undefined => "UndefinedType"
  | overflow => "OverflowError"
  | invalidOperation => "InvalidOperation"
  | noAttribute => "AttributeError"
  | index => "IndexError"
  | asynchronous => "_AwaitableInSynchronousExecution"
  | fatal => "Fatal"

/-- The kinds by which a leaf type's parser says that an input is not one of its values. -/
def rejectsInput : FailureKind → Bool
  | coercion | serialization | parse | input | type | value | undefined => true
  | _ => false

end FailureKind

/-- An error that application code raised, or returned as a value. -/
structure ThrownOf (α : Type) where
  kind : FailureKind
  message : Option String
  extensions : Option (List (String × α))
  path : List PathKey
  identity : Nat

/-- How an object answers to printing. -/
inductive StringForm where
  | none
  | text (shown : String)
  /-- An attempt to print the object raises. -/
  | raises
deriving DecidableEq, Repr, Inhabited

structure ObjectOf (α : Type) where
  className : String
  attributes : List (String × α)
  stringForm : StringForm
  /-- Objects of the class are equal when their attributes are. -/
  comparesAttributes : Bool
  hashable : Bool
  identity : Nat

/-- How a type prints: its text, or the class of the name that is no text. -/
inductive TypeText where
  | shown (text : String)
  | nameless (nameClass : String)
deriving DecidableEq, Repr, Inhabited

inductive Value where
  | null
  /-- The absence of a value. -/
  | undefined
  | bool (value : Bool)
  | int (value : Int)
  | float (value : Binary64) (identity : Nat)
  | str (value : String)
  | bytes (value : List UInt8)
  | decimal (value : Decimal) (identity : Nat)
  | date (value : Date)
  | timestamp (value : Timestamp)
  | list (items : List Value)
  /-- A list that the application may still add to, as it was when it was last looked at. -/
  | growing (handle : Nat) (items : List Value)
  | tuple (items : List Value)
  | set (items : List Value) (identity : Nat)
  | map (entries : List (Value × Value))
  /-- A member of the enumeration that the declaration number `enumeration` holds. -/
  | member (enumeration : Nat) (className name : String) (value : Value)
  | error (thrown : ThrownOf Value)
  | object (object : ObjectOf Value)
  | deferred (ticket : Nat)
  | callable (handle : Nat)
  /-- A method that the class of a value provides. -/
  | method (receiver : Value) (name : String)
  | iterator (handle : Nat)
  | type (ref : TypeRef) (className : String) (text : TypeText)
deriving Inhabited

abbrev Thrown := ThrownOf Value

abbrev ObjectValue := ObjectOf Value

namespace Value

/-- A number that has not been told apart from others. -/
def ofFloat (value : Binary64) : Value := float value 0

def ofDecimal (value : Decimal) : Value := decimal value 0

def ofOption (value : Option Value) : Value := value.getD null

def isNull : Value → Bool
  | null => true
  | _ => false

def isUndefined : Value → Bool
  | undefined => true
  | _ => false

def isMap : Value → Bool
  | map _ => true
  | _ => false

def isCallable : Value → Bool
  | callable _ | method .. => true
  | _ => false

def ticket? : Value → Option Nat
  | deferred ticket => some ticket
  | _ => none

def string? : Value → Option String
  | str text => some text
  | _ => none

/-- The items of a list. -/
def listed? : Value → Option (List Value)
  | list items | growing _ items => some items
  | _ => none

def ofKey : PathKey → Value
  | .name key => str key
  | .index position => int position

/-- A map with text keys. -/
def ofFields (fields : List (String × Value)) : Value :=
  map (fields.map fun (name, value) => (str name, value))

/-- What counts as true in a condition: all but nothing, zero and the empty. -/
def isTruthy : Value → Bool
  | null | undefined => false
  | bool value => value
  | int value => value ≠ 0
  | float value _ => !value.isZero
  | str value => value ≠ ""
  | bytes value => !value.isEmpty
  | decimal value _ => !value.isZero
  | list items | growing _ items | tuple items | set items _ => !items.isEmpty
  | map entries => !entries.isEmpty
  | _ => true

/-- The numbers besides booleans. -/
def isNumber : Value → Bool
  | int _ | float .. | decimal .. => true
  | _ => false

end Value

end GraphQL
