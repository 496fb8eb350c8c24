import GraphQL.Number.Shortest
import GraphQL.Value.Fault

/-!
Texts of values. `Value.text` is the plain text, which some objects refuse to give; `Value.literal`
shows a value inside a container; `Value.shown` is the form of error messages, which never fails and
writes containers as JSON where it can.
-/

namespace GraphQL

/-- The text of an error: of a missing key, the key as messages show it. -/
def ThrownOf.text (thrown : ThrownOf α) : String :=
  match thrown.message with
  | none => ""
  | some message => if thrown.kind = .key then Text.encodeMessage message else message

namespace Value

/-- The class of a value. -/
def className : Value → String
  | null => "NoneType"
  | undefined => "UndefinedType"
  | bool _ => "bool"
  | int _ => "int"
  | float .. => "float"
  | str _ => "str"
  | bytes _ => "bytes"
  | decimal .. => "Decimal"
  | date _ => "date"
  | timestamp _ => "datetime"
  | list _ | growing .. => "list"
  | tuple _ => "tuple"
  | set .. => "set"
  | map _ => "dict"
  | member _ className _ _ => className
  | error thrown => thrown.kind.className
  | object o => o.className
  | deferred _ => "coroutine"
  | callable _ => "function"
  | method (type ..) _ => "method"
  | method .. => "builtin_function_or_method"
  | iterator _ => "generator"
  | type _ className _ => className

/-- Where the class of a value is defined, if it is not built in. -/
def classHome? : Value → Option String
  | undefined => some "graphql.pyutils.undefined"
  | decimal .. => some "decimal"
  | date _ | timestamp _ => some "datetime"
  | error thrown =>
    match thrown.kind with
    | .response => some "graphql.error.graphql_error"
    | .serialization | .parse | .coercion | .invariant | .input | .queryCost =>
      some "graphql_executor.exceptions"
    | .fatal => some "app"
    | _ => none
  | object _ => some "app"
  | type .. => some "graphql_executor.schema.definition"
  | _ => none

def qualifiedName (value : Value) : String :=
  match value.classHome? with
  | some home => home ++ "." ++ value.className
  | none => value.className

/-- The class of a value as messages describe it. -/
def classText (value : Value) : String :=
  match value with
  | member _ className _ _ => "<enum '" ++ className ++ "'>"
  | _ => "<class '" ++ value.qualifiedName ++ "'>"

/-- The class of a value as faults name it: those of decimals and of the calendar in full. -/
def typeName (value : Value) : String :=
  match value with
  | decimal .. | date _ | timestamp _ => value.qualifiedName
  | _ => value.className

/-- Whether values of the class have a text of their own. -/
def hasOwnText : Value → Bool
  | set .. | deferred _ | callable _ | method .. | iterator _ => false
  | object o => o.stringForm ≠ .none
  | _ => true

def instanceText (value : Value) : String := "instance of " ++ value.className

def boolText (value : Bool) : String := if value then "True" else "False"

def joined (separator : String) (parts : List String) : String :=
  separator.intercalate parts

def numbersText (parts : List Nat) : String := joined ", " (parts.map toString)

/-- The fields of a time of day that a literal shows: seconds and microseconds only up to the last
that is not zero. -/
def timeFields (time : TimeOfDay) : List Nat :=
  if time.microsecond ≠ 0 then [time.hour, time.minute, time.second, time.microsecond]
  else if time.second ≠ 0 then [time.hour, time.minute, time.second]
  else [time.hour, time.minute]

def timestampText (stamp : Timestamp) : String :=
  let fields := [stamp.date.year, stamp.date.month, stamp.date.day] ++ timeFields stamp.time
  let zone := match stamp.offset with
    | none => ""
    | some 0 => ", tzinfo=datetime.timezone.utc"
    | some minutes => ", tzinfo=datetime.timezone(" ++ offsetSpan minutes ++ ")"
  "datetime.datetime(" ++ numbersText fields ++ zone ++ ")"

def typeText : TypeText → Except ValueFault String
  | .shown text => .ok text
  | .nameless nameClass => .error (.namelessType nameClass)

/-- The path of an error, if it has one. -/
def pathLiterals (path : List PathKey) : List String :=
  let keys := path.map fun
    | .name key => Text.encodeMessage key
    | .index position => toString position
  if path.isEmpty then [] else ["path=[" ++ joined ", " keys ++ "]"]

/-- A value as it shows inside a container. -/
def atomLiteral (value : Value) : String :=
  match value with
  | null => "None"
  | undefined => "Undefined"
  | bool b => boolText b
  | int n => toString n
  | float x _ => x.text
  | str text => Text.encodeMessage text
  | bytes b => Text.encodeBytes b
  | decimal d _ => "Decimal('" ++ d.text ++ "')"
  | date d => "datetime.date(" ++ numbersText [d.year, d.month, d.day] ++ ")"
  | timestamp t => timestampText t
  | error thrown =>
    thrown.kind.className ++ "(" ++ (thrown.message.map Text.encodeMessage).getD "" ++ ")"
  | type (.named _) className (.shown text) =>
    "<" ++ className ++ " " ++ Text.encodeMessage text ++ ">"
  | type _ className (.shown text) => "<" ++ className ++ " " ++ text ++ ">"
  | _ => "<" ++ value.className ++ " object>"

mutual

def literal : Value → String
  | list items | growing _ items => "[" ++ joined ", " (literals items) ++ "]"
  | tuple [item] => "(" ++ literal item ++ ",)"
  | tuple items => "(" ++ joined ", " (literals items) ++ ")"
  | set [] _ => "set()"
  | set items _ => "\x7b" ++ joined ", " (literals items) ++ "\x7d"
  | map entries => "\x7b" ++ joined ", " (entryLiterals entries) ++ "\x7d"
  | member _ className name value => "<" ++ className ++ "." ++ name ++ ": " ++ literal value ++ ">"
  | error ⟨.response, message, extensions, path, _⟩ =>
    "GraphQLError(" ++ joined ", "
      (Text.encodeMessage (message.getD "") :: pathLiterals path ++ extensionLiterals extensions)
      ++ ")"
  | value => atomLiteral value

def literals : List Value → List String
  | [] => []
  | value :: rest => literal value :: literals rest

/-- The extensions of an error, if it has some. -/
def extensionLiterals : Option (List (String × Value)) → List String
  | none | some [] => []
  | some fields => ["extensions=\x7b" ++ joined ", " (fieldLiterals fields) ++ "\x7d"]

def fieldLiterals : List (String × Value) → List String
  | [] => []
  | (name, value) :: rest =>
    (Text.encodeMessage name ++ ": " ++ literal value) :: fieldLiterals rest

def entryLiterals : List (Value × Value) → List String
  | [] => []
  | (key, value) :: rest => (literal key ++ ": " ++ literal value) :: entryLiterals rest

end

/-- The plain text of a value. -/
def text (value : Value) : Except ValueFault String :=
  match value with
  | str s => .ok s
  | decimal d _ => .ok d.text
  | date d => .ok d.text
  | timestamp t => .ok t.text
  | member _ className name _ => .ok (className ++ "." ++ name)
  | error thrown => .ok thrown.text
  | object o =>
    match o.stringForm with
    | .none => .ok value.literal
    | .text shown => .ok shown
    | .raises => .error .unprintable
  | type _ _ shown => typeText shown
  | _ => .ok value.literal

/-- The text of a value without parts in an error message. -/
def shownAtom (value : Value) : String :=
  match value with
  | null => "null"
  | bool b => if b then "true" else "false"
  | str "" => "(empty string)"
  | str s => s
  | int n => toString n
  | float x _ => x.text
  | _ =>
    if value.hasOwnText then
      match value.text with
      | .ok text => text
      | .error _ => value.instanceText
    else value.instanceText

def jsonFloat : Binary64 → String
  | .nan => "NaN"
  | .infinite negative => if negative then "-Infinity" else "Infinity"
  | x => x.text

/-- A key of a JSON object; a map with any other key is no JSON object. -/
def jsonKey? : Value → Option String
  | str s => some (Text.encodeJson s)
  | null => some (Text.encodeJson "null")
  | bool b => some (Text.encodeJson (if b then "true" else "false"))
  | int n => some (Text.encodeJson (toString n))
  | float x _ => some (Text.encodeJson (jsonFloat x))
  | _ => none

mutual

/-- The JSON text of a value; what JSON does not know becomes a string. -/
def json? : Value → Option String
  | null => some "null"
  | bool b => some (if b then "true" else "false")
  | int n => some (toString n)
  | float x _ => some (jsonFloat x)
  | str s => some (Text.encodeJson s)
  | list items | growing _ items | tuple items =>
    (jsonItems? items).map fun parts => "[" ++ joined ", " parts ++ "]"
  | map entries => (jsonEntries? entries).map fun parts => "\x7b" ++ joined ", " parts ++ "\x7d"
  | value => some (Text.encodeJson value.shownAtom)

def jsonItems? : List Value → Option (List String)
  | [] => some []
  | value :: rest =>
    match json? value, jsonItems? rest with
    | some part, some parts => some (part :: parts)
    | _, _ => none

def jsonEntries? : List (Value × Value) → Option (List String)
  | [] => some []
  | (key, value) :: rest =>
    match jsonKey? key, json? value, jsonEntries? rest with
    | some name, some part, some parts => some ((name ++ ": " ++ part) :: parts)
    | _, _, _ => none

end

/-- The text of any value in an error message. -/
def shown (value : Value) : String :=
  match value with
  | list _ | growing .. | tuple _ | map _ => value.json?.getD value.literal
  | _ => value.shownAtom

end Value

end GraphQL
