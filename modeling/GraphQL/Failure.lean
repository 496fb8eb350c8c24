import GraphQL.Schema.Fault
import GraphQL.Value.Text

/-!
What a computation ends with when it yields no value. Each family of failures is a type of causes
with one function for their wording; `Failure` joins the families, and `ResponseError` is the form
in which a response reports any of them.
-/

namespace GraphQL

/-- Whether a leaf type was writing a value or reading one. -/
inductive LeafDirection where
  | serialize
  | parse
deriving DecidableEq, Repr

inductive LeafProblem where
  | nonInteger (shown : String)
  | outOfRange (shown : String)
  | nonNumeric (shown : String)
  | noString (shown : String)
  | nonString (shown : String)
  | noBoolean (shown : String)
  | nonBoolean (shown : String)
  | noId (shown : String)
  | nonIdLiteral (shown : String)
  | noEnum (shown : String)
  | notInEnum (shown : String)
  | notInEnumLiteral
  | nonStringLiteral (type shown : String)
  | notDate (text kind : String)
  | noDate (text kind : String)
  | dateText (literal : String) (detail : String)
  | dateWithTime (literal parsed : String)
  | notTimestamp (text kind : String)
  | noTimestamp (text kind : String)
  | timestampText (literal : String) (detail : String)
  | timestampWithZone (literal parsed : String)
  | noDecimal (text kind : String)
  | decimalText (literal : String)
deriving DecidableEq, Repr

namespace LeafProblem

def message : LeafProblem → String
  | nonInteger shown => "Int cannot represent non-integer value: " ++ shown
  | outOfRange shown => "Int cannot represent non 32-bit signed integer value: " ++ shown
  | nonNumeric shown => "Float cannot represent non numeric value: " ++ shown
  | noString shown => "String cannot represent value: " ++ shown
  | nonString shown => "String cannot represent a non string value: " ++ shown
  | noBoolean shown => "Boolean cannot represent value: " ++ shown
  | nonBoolean shown => "Boolean cannot represent a non boolean value: " ++ shown
  | noId shown => "ID cannot represent value: " ++ shown
  | nonIdLiteral shown => "ID cannot represent a non-string and non-integer value: " ++ shown
  | noEnum shown => "Cannot serialize value as enum: " ++ shown
  | notInEnum shown => "Cannot represent value as enum: " ++ shown
  | notInEnumLiteral => ""
  | nonStringLiteral type shown => type ++ " cannot represent a non string value: " ++ shown
  | notDate text kind =>
    "Expected argument to be a python date object. Got " ++ text ++ " of type " ++ kind
      ++ " instead."
  | noDate text kind =>
    "Expected a date object or its ISO-8601 'YYYY-MM-DD' string representation. Got " ++ text
      ++ " of type " ++ kind ++ " instead."
  | dateText literal detail => "Invalid ISO-8601 date string " ++ literal ++ ": " ++ detail
  | dateWithTime literal parsed =>
    "Expected an ISO-8601 date string in 'YYYY-MM-DD' format, but got a datetime string with a "
      ++ "non-empty time component. This is not supported, since converting it to a date would "
      ++ "result in an implicit loss of precision. Received value " ++ literal ++ ", parsed as "
      ++ parsed ++ "."
  | notTimestamp text kind =>
    "Expected a timezone-naive datetime object. Got " ++ text ++ " of type " ++ kind
      ++ " instead."
  | noTimestamp text kind =>
    "Expected a timezone-naive datetime or an ISO-8601 string representation parseable by the "
      ++ "ciso8601 library. Got " ++ text ++ " of type " ++ kind ++ " instead."
  | timestampText literal detail =>
    "Invalid ISO-8601 datetime string " ++ literal ++ ": " ++ detail
  | timestampWithZone literal parsed =>
    "Expected a timezone-naive datetime value, but got a timezone-aware datetime string. This is "
      ++ "not supported, since discarding the timezone component would result in an implicit loss "
      ++ "of precision. Received value " ++ literal ++ ", parsed as " ++ parsed ++ "."
  | noDecimal text kind =>
    "Decimal cannot represent value " ++ text ++ " of type " ++ kind ++ "."
  | decimalText literal => "Decimal cannot represent value " ++ literal ++ "."

end LeafProblem

structure LeafFault where
  direction : LeafDirection
  problem : LeafProblem
deriving DecidableEq, Repr

/-- Why a runtime value does not match an input type. -/
inductive InputProblem where
  | nullForNonNull (type : String)
  | notMapping (type : String)
  | fieldMissing (field type : String)
  | unknownField (field type : String)
  | leaf (type detail : String)
deriving DecidableEq, Repr

def InputProblem.message : InputProblem → String
  | nullForNonNull type => "Expected non-nullable type \"" ++ type ++ "\" not to be null."
  | notMapping type => "Expected type \"" ++ type ++ "\" to be a mapping."
  | fieldMissing field type =>
    "Field \"" ++ field ++ "\" of required type \"" ++ type ++ "\" was not provided."
  | unknownField field type =>
    "Field \"" ++ field ++ "\" is not defined by type \"" ++ type ++ "\"."
  | leaf type detail =>
    "Expected type \"" ++ type ++ "\"." ++ if detail = "" then "" else " " ++ detail

/-- The offending part of an input value, and the way to it from the top. -/
structure InputFault where
  problem : InputProblem
  path : List PathKey
  value : Value

/-- What a response says about one failure. -/
structure ResponseError where
  message : String
  /-- The offsets of the nodes at fault. -/
  nodes : List Nat := []
  /-- Empty when the error belongs to no position of the response. -/
  path : List PathKey := []
  extensions : List (String × Value) := []
  /-- The kind of the failure that the error reports, if it reports another one. -/
  origin : Option FailureKind := none
  /-- Which of the application's errors this is, if it is one of them. -/
  identity : Option Nat := none

/-- Violations of what the checks of a schema promise. -/
inductive Assertion where
  | outputType (shown : String)
  | inputType (shown : String)
  | operationKind (shown : String)
  | notDocument (shown : String)
deriving DecidableEq, Repr

def Assertion.message : Assertion → String
  | outputType shown => "Cannot complete value of unexpected output type: " ++ shown ++ "."
  | inputType shown => "Unexpected input type: " ++ shown
  | operationKind shown => "Unknown operation type: " ++ shown
  | notDocument shown => "Received an unexpected value for \"document_ast\": " ++ shown

inductive Failure where
  | thrown (thrown : Thrown)
  | response (error : ResponseError)
  | schema (fault : SchemaFault)
  | value (fault : ValueFault)
  | leaf (fault : LeafFault)
  | input (fault : InputFault)
  | assertion (violated : Assertion)
  /-- An absent value stood where a value or an error should. -/
  | absent
  /-- Selections nested deeper than execution follows. -/
  | tooDeep
  /-- A result had to be awaited where nothing may wait. -/
  | asynchronous

namespace Failure

def kind : Failure → FailureKind
  | thrown e => e.kind
  | response _ => .response
  | schema fault => fault.kind
  | value fault => fault.kind
  | leaf fault => match fault.direction with
    | .serialize => .serialization
    | .parse => .parse
  | input _ => .input
  | assertion _ => .assertion
  | absent => .undefined
  | tooDeep => .runtime
  | asynchronous => .asynchronous

def message : Failure → String
  | thrown e => e.text
  | response error => error.message
  | schema fault => fault.message
  | value fault => fault.message
  | leaf fault => fault.problem.message
  | input fault => fault.problem.message
  | assertion violated => violated.message
  | absent => "Undefined"
  | tooDeep => "maximum recursion depth exceeded"
  | asynchronous => ""

def extensions : Failure → List (String × Value)
  | thrown e => e.extensions.getD []
  | response error => error.extensions
  | _ => []

/-- Raised outside everything that execution handles. -/
def isFatal (failure : Failure) : Bool := failure.kind = .fatal

/-- An error of the application as a failure; one made for responses keeps its path. -/
def ofThrown (e : Thrown) : Failure :=
  if e.kind = .response then
    .response
      { message := e.text
        path := e.path
        extensions := e.extensions.getD []
        identity := some e.identity }
  else .thrown e

/-- The failure that a value stands for, if it is an error. -/
def ofValue? : Value → Option Failure
  | .error e => some (ofThrown e)
  | .undefined => some .absent
  | _ => none

/-- The failure as a response error at a position. An error that already has a path is left as it
is; any other takes the path, and the nodes unless it has its own. -/
def locate (failure : Failure) (nodes : List Nat) (path : List PathKey) : ResponseError :=
  match failure with
  | response error =>
    if error.path ≠ [] then error
    else
      { message := error.message
        nodes := if error.nodes = [] then nodes else error.nodes
        path
        extensions := error.extensions
        origin := some .response }
  | other =>
    { message := other.message
      nodes
      path
      extensions := other.extensions
      origin := some other.kind }

end Failure

/-- What an application function answers, or a deferred result yields. -/
abbrev Reply := Except Failure Value

end GraphQL
