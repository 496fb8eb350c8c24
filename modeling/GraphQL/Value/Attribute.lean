import GraphQL.Value.Equality
import GraphQL.Value.Method

/-!
Attributes of values, by which fields without a resolver find their value.
-/

namespace GraphQL

namespace Value

/-- An object of the calendar, known by its text only. -/
def calendarObject (className text : String) : Value :=
  object ⟨className, [], .text text, false, true, 0⟩

/-- An error for responses as clients see it, without the parts that it lacks. -/
def formattedError (thrown : Thrown) : Value :=
  let message := thrown.message.getD ""
  let path := if thrown.path.isEmpty then [] else [("path", ofPath thrown.path)]
  let extensions := (thrown.extensions.getD []).map fun (name, value) => (name, value)
  ofFields <|
    [("message", str (if message = "" then "An unknown error occurred." else message))]
      ++ path ++ if extensions.isEmpty then [] else [("extensions", ofFields extensions)]

/-- The attributes that an error has. -/
def errorAttribute? (thrown : Thrown) (name : String) : Option Value :=
  if thrown.kind = .response then
    match name with
    | "extensions" => some (ofFields (thrown.extensions.getD []))
    | "args" => some (tuple [str (thrown.message.getD "")])
    | "formatted" => some (formattedError thrown)
    | name => errorPart? thrown.message thrown.path name
  else
    match name with
    | "extensions" => thrown.extensions.map ofFields
    | "args" => some (tuple (thrown.message.toList.map str))
    | _ => none

def partOfDay? (date : Date) : String → Option Value
  | "year" => some (int date.year)
  | "month" => some (int date.month)
  | "day" => some (int date.day)
  | _ => none

def dateAttribute? (date : Date) : String → Option Value
  | "min" => some (.date { year := 1, month := 1, day := 1 })
  | "max" => some (.date { year := 9999, month := 12, day := 31 })
  | "resolution" => some (calendarObject "timedelta" "1 day, 0:00:00")
  | name => partOfDay? date name

def zoneOf (offset : Option Int) : Value :=
  match offset with
  | none => null
  | some 0 => calendarObject "timezone" "UTC"
  | some minutes =>
    calendarObject "timezone" ("UTC" ++ String.ofList (Timestamp.offsetChars minutes))

def timestampAttribute? (stamp : Timestamp) : String → Option Value
  | "hour" => some (int stamp.time.hour)
  | "minute" => some (int stamp.time.minute)
  | "second" => some (int stamp.time.second)
  | "microsecond" => some (int stamp.time.microsecond)
  | "fold" => some (int 0)
  | "tzinfo" => some (zoneOf stamp.offset)
  | "min" => some (timestamp (.atMidnight { year := 1, month := 1, day := 1 }))
  | "max" =>
    some (timestamp
      { date := { year := 9999, month := 12, day := 31 }
        time := { hour := 23, minute := 59, second := 59, microsecond := 999999 }
        offset := none })
  | "resolution" => some (calendarObject "timedelta" "0:00:00.000001")
  | name => partOfDay? stamp.date name

/-- The parts of an integer, which is a fraction and a complex number, too. -/
def integerAttribute? (value : Int) : String → Option Value
  | "real" | "numerator" => some (int value)
  | "imag" => some (int 0)
  | "denominator" => some (int 1)
  | _ => none

def numberAttribute? (value zero : Value) : String → Option Value
  | "real" => some value
  | "imag" => some zero
  | _ => none

def memberAttribute? (own : String) (inner : Value) : String → Option Value
  | "name" | "_name_" => some (str own)
  | "value" | "_value_" => some inner
  | _ => none

def typeAttribute? (text : String) : String → Option Value
  | "name" => some (str text)
  | "description" => some null
  | _ => none

/-- The attributes of a value that are no methods. -/
def dataAttribute? (value : Value) (name : String) : Option Value :=
  match value with
  | object o => o.attributes.lookup name
  | error thrown => errorAttribute? thrown name
  | bool b => integerAttribute? (if b then 1 else 0) name
  | int n => integerAttribute? n name
  | float .. => numberAttribute? value (ofFloat (.zero false)) name
  | decimal .. => numberAttribute? value (ofDecimal (.ofInt 0)) name
  | date d => dateAttribute? d name
  | timestamp t => timestampAttribute? t name
  | member _ _ own inner => memberAttribute? own inner name
  | type (.named _) _ (.shown text) => typeAttribute? text name
  | _ => none

/-- The attribute of a value, if it has one of the name. -/
def attribute? (value : Value) (name : String) : Option Value :=
  (value.dataAttribute? name).orElse fun _ =>
    if value.hasMethod name then some (method value name) else none

/-- What stands under a name in a value: the entry of a map, the attribute of anything else. -/
def get? (value : Value) (name : String) : Option Value :=
  match value with
  | map entries => lookup? entries (str name)
  | other => other.attribute? name

/-- The item of a value under a name, which only maps have. -/
def subscript (value : Value) (name : String) : Except ValueFault Value :=
  match value with
  | map entries =>
    match lookup? entries (str name) with
    | some item => .ok item
    | none => .error (.missingKey name)
  | str _ => .error .stringIndex
  | bytes _ => .error (.textIndex "byte")
  | list _ | growing .. => .error (.textIndex "list")
  | tuple _ => .error (.textIndex "tuple")
  | other => .error (.notSubscriptable other.typeName)

end Value

end GraphQL
