import GraphQL.Text.Quoted
import GraphQL.Value

/-!
What goes wrong when an operation meets a value that it is not defined for. The type names that
messages give are those of `Value.typeName`.
-/

namespace GraphQL

/-- How many values a method takes, in the words with which it refuses the three of a field. -/
inductive Arity where
  | none
  | one
  | exactly (count : Nat)
  | atMost (count : Nat)
  | atMostPositional (count : Nat)
  | expected (count : Nat)
  | expectedAtMost (count : Nat)
  /-- The method does not say its name. -/
  | anonymous (count : Nat)
  /-- The receiver counts as one of the values. -/
  | withReceiver (least most : Nat)
deriving DecidableEq, Repr

namespace Arity

private def counted (count : Nat) (noun : String) : String :=
  toString count ++ " " ++ noun ++ if count = 1 then "" else "s"

def refusal (arity : Arity) (owner name : String) : String :=
  match arity with
  | none => owner ++ "." ++ name ++ "() takes no arguments (3 given)"
  | one => owner ++ "." ++ name ++ "() takes exactly one argument (3 given)"
  | exactly count => name ++ "() takes exactly " ++ counted count "argument" ++ " (3 given)"
  | atMost count => name ++ "() takes at most " ++ counted count "argument" ++ " (3 given)"
  | atMostPositional count =>
    name ++ "() takes at most " ++ counted count "positional argument" ++ " (3 given)"
  | expected count => name ++ " expected " ++ counted count "argument" ++ ", got 3"
  | expectedAtMost count => name ++ " expected at most " ++ counted count "argument" ++ ", got 3"
  | anonymous count => "function takes at most " ++ counted count "argument" ++ " (3 given)"
  | withReceiver least most =>
    owner ++ "." ++ name ++ "() takes "
      ++ (if least = most then "" else "from " ++ toString least ++ " to ")
      ++ counted most "positional argument" ++ " but 4 were given"

end Arity

inductive ValueFault where
  | unprintable
  | namelessType (nameClass : String)
  | notFloat (text : String)
  | signalingToFloat
  | signalingCompared
  | signalingHashed
  | unhashable (typeName : String)
  | uncallable (typeName : String)
  | noAttribute (typeName name : String)
  | notIterable (typeName : String)
  | notSubscriptable (typeName : String)
  /-- Items of a sequence are known by their place, not by a name. -/
  | textIndex (sequence : String)
  | stringIndex
  | missingKey (key : String)
  | refusedCall (owner method : String) (arity : Arity)
  | argumentType (method : String) (position : Nat) (expected found : String)
  | notBytes (typeName : String)
  | notInteger (typeName : String)
  | notArithmeticContext
  | sliceIndices (optional : Bool)
  | singleBrace (brace : Char)
  | openField
  | missingReplacement (place : Nat)
  /-- Fields of a format are either all numbered or none of them. -/
  | mixedNumbering (manual : Bool)
  | unsupportedSum (left right : String)
  /-- A sum was to take the place of its left side. -/
  | unsupportedGrowth (left right : String)
  | unsupportedProduct (left right : String)
  | repeatedBy (count : String)
  | unordered (relation left right : String)
  | textSum (right : String)
  | listSum (right : String)
  | tupleSum (right : String)
  | bytesSum (right : String)
  | dateOverflow
  | longNumeral (digits : Nat)
  | deferredReused
  | deferredRunning
deriving DecidableEq, Repr

namespace ValueFault

def kind : ValueFault → FailureKind
  | unprintable | notFloat _ | signalingToFloat | longNumeral _ | singleBrace _ | openField
  | mixedNumbering _ => .value
  | signalingCompared => .invalidOperation
  | noAttribute .. => .noAttribute
  | missingKey _ => .key
  | missingReplacement _ => .index
  | dateOverflow => .overflow
  | deferredReused | deferredRunning => .runtime
  | _ => .type

private def numbering (manual : Bool) : String :=
  if manual then "manual field specification" else "automatic field numbering"

def message : ValueFault → String
  | unprintable => "cannot print"
  | namelessType nameClass => "__str__ returned non-string (type " ++ nameClass ++ ")"
  | notFloat text => "could not convert string to float: " ++ Text.encodeMessage text
  | signalingToFloat => "cannot convert signaling NaN to float"
  | signalingCompared => "[<class 'decimal.InvalidOperation'>]"
  | signalingHashed => "Cannot hash a signaling NaN value."
  | unhashable typeName => "unhashable type: '" ++ typeName ++ "'"
  | uncallable typeName => "'" ++ typeName ++ "' object is not callable"
  | noAttribute typeName name =>
    "'" ++ typeName ++ "' object has no attribute '" ++ name ++ "'"
  | notIterable typeName => "'" ++ typeName ++ "' object is not iterable"
  | notSubscriptable typeName => "'" ++ typeName ++ "' object is not subscriptable"
  | textIndex sequence => sequence ++ " indices must be integers or slices, not str"
  | stringIndex => "string indices must be integers, not 'str'"
  | missingKey key => Text.encodeMessage key
  | refusedCall owner method arity => arity.refusal owner method
  | argumentType method position expected found =>
    method ++ "() argument " ++ toString position ++ " must be " ++ expected ++ ", not " ++ found
  | notBytes typeName => "a bytes-like object is required, not '" ++ typeName ++ "'"
  | notInteger typeName => "'" ++ typeName ++ "' object cannot be interpreted as an integer"
  | notArithmeticContext => "optional argument must be a context"
  | sliceIndices optional =>
    "slice indices must be integers " ++ (if optional then "or None " else "")
      ++ "or have an __index__ method"
  | singleBrace brace =>
    "Single '" ++ String.singleton brace ++ "' encountered in format string"
  | openField => "expected '\x7d' before end of string"
  | missingReplacement place =>
    "Replacement index " ++ toString place ++ " out of range for positional args tuple"
  | mixedNumbering manual =>
    "cannot switch from " ++ numbering manual ++ " to " ++ numbering !manual
  | unsupportedSum left right =>
    "unsupported operand type(s) for +: '" ++ left ++ "' and '" ++ right ++ "'"
  | unsupportedGrowth left right =>
    "unsupported operand type(s) for +=: '" ++ left ++ "' and '" ++ right ++ "'"
  | unsupportedProduct left right =>
    "unsupported operand type(s) for *: '" ++ left ++ "' and '" ++ right ++ "'"
  | repeatedBy count => "can't multiply sequence by non-int of type '" ++ count ++ "'"
  | unordered relation left right =>
    "'" ++ relation ++ "' not supported between instances of '" ++ left ++ "' and '" ++ right ++ "'"
  | textSum right => "can only concatenate str (not \"" ++ right ++ "\") to str"
  | listSum right => "can only concatenate list (not \"" ++ right ++ "\") to list"
  | tupleSum right => "can only concatenate tuple (not \"" ++ right ++ "\") to tuple"
  | bytesSum right => "can't concat " ++ right ++ " to bytes"
  | dateOverflow => "date value out of range"
  | longNumeral digits =>
    "Exceeds the limit (4300 digits) for integer string conversion: value has "
      ++ toString digits
      ++ " digits; use sys.set_int_max_str_digits() to increase the limit"
  | deferredReused => "cannot reuse already awaited coroutine"
  | deferredRunning => "coroutine is being awaited already"

end ValueFault

end GraphQL
