import GraphQL.Document.Printer
import GraphQL.Document.Untyped
import GraphQL.Failure

/-!
The standard scalars. Each has three functions: one writes an internal value into a response, one
reads a runtime input, and one reads a literal. Writing is lenient, so that numeric strings count as
numbers and booleans as 0 and 1; reading takes values of the matching kind only.
-/

namespace GraphQL

namespace Leaf

abbrev Outcome := Except Failure Value

def refuse (direction : LeafDirection) (problem : LeafProblem) : Except Failure α :=
  .error (.leaf ⟨direction, problem⟩)

def cannotWrite (problem : LeafProblem) : Except Failure α := refuse .serialize problem

def cannotRead (problem : LeafProblem) : Except Failure α := refuse .parse problem

def liftFault (result : Except ValueFault α) : Except Failure α := result.mapError .value

/-- A value with its class, as some messages show it. -/
def described (value : Value) (problem : String → String → LeafProblem) :
    Except Failure LeafProblem := do
  return problem (← liftFault value.text) value.classText

/-- Numbers and numeric strings as floating point numbers; nothing else has one. -/
def numeric? : Value → Except ValueFault (Option Binary64)
  | .str text =>
    match numericString text with
    | .notNumeric => .ok none
    | .separated => .error (.notFloat text)
    | .numeral numeral => .ok (some numeral.toBinary64)
  | .int value => .ok (some (.ofInt value))
  | .float value _ => .ok (some value)
  | .decimal value _ =>
    if value.isSignaling then .error .signalingToFloat else .ok (some value.toBinary64)
  | _ => .ok none

/-- The signed integers of 32 bits. -/
def isInt32 (n : Int) : Bool := -2147483648 ≤ n && n ≤ 2147483647

def int32 (direction : LeafDirection) (n : Int) (original : Value) : Outcome :=
  if isInt32 n then .ok (.int n) else refuse direction (.outOfRange original.shown)

/-- A number without fractional part as an integer. -/
def integral (direction : LeafDirection) (x : Binary64) (original : Value) : Outcome :=
  match x with
  | .nan => refuse direction (.nonInteger original.shown)
  | .infinite _ => refuse direction (.outOfRange original.shown)
  | x =>
    match x.toInt? with
    | some n => int32 direction n original
    | none => refuse direction (.nonInteger original.shown)

namespace Int

def serialize (value : Value) : Outcome :=
  match value with
  | .bool b => .ok (.int (if b then 1 else 0))
  | .int n => int32 .serialize n value
  | value => do
    match ← liftFault (numeric? value) with
    | some x => integral .serialize x value
    | none => cannotWrite (.nonInteger value.shown)

def parseValue (value : Value) : Outcome :=
  match value with
  | .int n => int32 .parse n value
  | .float x _ => integral .parse x value
  | value => cannotRead (.nonInteger value.shown)

def parseLiteral (literal : Literal) : Outcome :=
  match literal with
  | .int _ numeral => do
    let n ← liftFault (Literal.readInt numeral)
    if isInt32 n then return .int n else cannotRead (.outOfRange numeral)
  | literal => cannotRead (.nonInteger literal.print)

end Int

namespace Float

def serialize (value : Value) : Outcome :=
  match value with
  | .bool b => .ok (.ofFloat (.ofInt (if b then 1 else 0)))
  | value => do
    match ← liftFault (numeric? value) with
    | some x => if x.isFinite then return .ofFloat x else cannotWrite (.nonNumeric value.shown)
    | none => cannotWrite (.nonNumeric value.shown)

def parseValue (value : Value) : Outcome :=
  match value with
  | .int n =>
    let x := Binary64.ofInt n
    if x.isFinite then .ok (.ofFloat x) else cannotRead (.nonNumeric value.shown)
  | .float x _ => if x.isFinite then .ok value else cannotRead (.nonNumeric value.shown)
  | value => cannotRead (.nonNumeric value.shown)

def parseLiteral (literal : Literal) : Outcome :=
  match literal with
  | .int _ numeral => .ok (.ofFloat (Literal.readFloat numeral))
  | .float _ numeral => .ok (.ofFloat (Literal.readFloat numeral))
  | literal => cannotRead (.nonNumeric literal.print)

end Float

/-- The values that have a meaningful text. -/
def isStringifiable : Value → Bool
  | .list _ | .growing .. | .tuple _ | .set .. | .map _ | .bytes _ => false
  | value => value.hasOwnText

namespace String

def serialize (value : Value) : Outcome :=
  match value with
  | .null => .ok (.str "")
  | .bool b => .ok (.str (if b then "1" else ""))
  | .str _ => .ok value
  | value =>
    if isStringifiable value then (liftFault value.text).map .str
    else cannotWrite (.noString value.shown)

def parseValue (value : Value) : Outcome :=
  match value with
  | .str _ => .ok value
  | value => cannotRead (.nonString value.shown)

def parseLiteral (literal : Literal) : Outcome :=
  match literal with
  | .string _ text _ => .ok (.str text)
  | literal => cannotRead (.nonString literal.print)

end String

namespace Boolean

def serialize (value : Value) : Outcome :=
  match value with
  | .bool _ => .ok value
  | .int n => .ok (.bool (n ≠ 0))
  | .float x _ => .ok (.bool (!x.isZero))
  | .decimal d _ =>
    if d.isSignaling then .error (.value .signalingCompared) else .ok (.bool (!d.isZero))
  | .str text => .ok (.bool (text ≠ "" && text ≠ "0"))
  | value => cannotWrite (.noBoolean value.shown)

def parseValue (value : Value) : Outcome :=
  match value with
  | .bool _ => .ok value
  | value => cannotRead (.nonBoolean value.shown)

def parseLiteral (literal : Literal) : Outcome :=
  match literal with
  | .boolean _ b => .ok (.bool b)
  | literal => cannotRead (.nonBoolean literal.print)

end Boolean

namespace Id

def serialize (value : Value) : Outcome :=
  match value with
  | .str _ => .ok value
  | .int n => .ok (.str (toString n))
  | .bool _ | .float .. | .null => cannotWrite (.noId value.shown)
  | value =>
    if isStringifiable value then (liftFault value.text).map .str
    else cannotWrite (.noId value.shown)

def parseValue (value : Value) : Outcome :=
  match value with
  | .str _ => .ok value
  | .int n => .ok (.str (toString n))
  | value => cannotRead (.noId value.shown)

def parseLiteral (literal : Literal) : Outcome :=
  match literal with
  | .string _ text _ => .ok (.str text)
  | .int _ numeral => .ok (.str numeral)
  | literal => cannotRead (.nonIdLiteral literal.print)

end Id

/-- Reads a string literal by reading its text. -/
def parseText (scalar : Standard) (parse : Value → Outcome) (literal : Literal) : Outcome :=
  match literal with
  | .string _ text _ => parse (.str text)
  | literal => cannotRead (.nonStringLiteral scalar.name literal.print)

/-- A timestamp that a text holds. A day past the end of the calendar is no fault of the text. -/
def readTimestamp (text : String) (problem : String → String → LeafProblem) :
    Except Failure Timestamp :=
  match Timestamp.read text with
  | .ok stamp => .ok stamp
  | .error (.calendar .beyondEnd) => .error (.value .dateOverflow)
  | .error fault => cannotRead (problem (Text.encodeMessage text) fault.message)

namespace Date

def serialize (value : Value) : Outcome :=
  match value with
  | .date date => .ok (.str date.text)
  | value => do cannotWrite (← described value .notDate)

def parseValue (value : Value) : Outcome :=
  match value with
  | .date _ => .ok value
  | .str text => do
    let stamp ← readTimestamp text .dateText
    if stamp.time = .midnight ∧ stamp.offset = none then return .date stamp.date
    else cannotRead (.dateWithTime (Text.encodeMessage text) stamp.text)
  | value => do cannotRead (← described value .noDate)

def parseLiteral (literal : Literal) : Outcome := parseText .date parseValue literal

end Date

namespace DateTime

def serialize (value : Value) : Outcome :=
  match value with
  | .timestamp stamp =>
    if stamp.isNaive then .ok (.str stamp.isoText)
    else do cannotWrite (← described value .notTimestamp)
  | value => do cannotWrite (← described value .notTimestamp)

def parseValue (value : Value) : Outcome :=
  match value with
  | .timestamp stamp =>
    if stamp.isNaive then .ok value else do cannotRead (← described value .noTimestamp)
  | .str text => do
    let stamp ← readTimestamp text .timestampText
    if stamp.isNaive then return .timestamp stamp
    else cannotRead (.timestampWithZone (Text.encodeMessage text) stamp.text)
  | .date date => .ok (.timestamp (.atMidnight date))
  | value => do cannotRead (← described value .noTimestamp)

def parseLiteral (literal : Literal) : Outcome := parseText .dateTime parseValue literal

end DateTime

namespace Decimal

def serialize (value : Value) : Outcome :=
  match value with
  | .decimal d _ => .ok (.str d.text)
  | .int n => .ok (.str (toString n))
  | .float x _ => .ok (.str x.text)
  | .str text =>
    match GraphQL.Decimal.read? text with
    | some d => .ok (.str d.text)
    | none => cannotWrite (.decimalText (Text.encodeMessage text))
  | value => do cannotWrite (← described value .noDecimal)

def parseValue (value : Value) : Outcome :=
  match value with
  | .decimal .. => .ok value
  | .int n => .ok (.ofDecimal (.ofInt n))
  | .float x _ => .ok (.ofDecimal (.ofBinary64 x))
  | .str text =>
    match GraphQL.Decimal.read? text with
    | some d => .ok (.ofDecimal d)
    | none => cannotRead (.decimalText (Text.encodeMessage text))
  | value => do cannotRead (← described value .noDecimal)

def parseLiteral (literal : Literal) : Outcome := parseText .decimal parseValue literal

end Decimal

end Leaf

namespace Standard

def serialize : Standard → Value → Except Failure Value
  | int => Leaf.Int.serialize
  | float => Leaf.Float.serialize
  | string => Leaf.String.serialize
  | boolean => Leaf.Boolean.serialize
  | id => Leaf.Id.serialize
  | date => Leaf.Date.serialize
  | dateTime => Leaf.DateTime.serialize
  | decimal => Leaf.Decimal.serialize

def parseValue : Standard → Value → Except Failure Value
  | int => Leaf.Int.parseValue
  | float => Leaf.Float.parseValue
  | string => Leaf.String.parseValue
  | boolean => Leaf.Boolean.parseValue
  | id => Leaf.Id.parseValue
  | date => Leaf.Date.parseValue
  | dateTime => Leaf.DateTime.parseValue
  | decimal => Leaf.Decimal.parseValue

def parseLiteral : Standard → Literal → Except Failure Value
  | int => Leaf.Int.parseLiteral
  | float => Leaf.Float.parseLiteral
  | string => Leaf.String.parseLiteral
  | boolean => Leaf.Boolean.parseLiteral
  | id => Leaf.Id.parseLiteral
  | date => Leaf.Date.parseLiteral
  | dateTime => Leaf.DateTime.parseLiteral
  | decimal => Leaf.Decimal.parseLiteral

end Standard

end GraphQL
