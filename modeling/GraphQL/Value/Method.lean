import GraphQL.Value.Format
import GraphQL.Value.Parts

/-!
Methods of values. A field that finds a method under its name calls it with its arguments, its
context and what is known about it, and hardly any method takes three such values.
-/

namespace GraphQL

namespace Value

/-- What becomes of a method that is called for a field. -/
inductive MethodForm where
  | counts (arity : Arity)
  | fails (fault : ValueFault)
  /-- Fills the values into the fields of a text. -/
  | formats
  /-- Takes a map alone or else texts. -/
  | translates
  /-- Takes any number of values, all of which must have items. -/
  | gathers
deriving DecidableEq, Repr

abbrev MethodTable := List (MethodForm × List String)

def textMethods : MethodTable :=
  [(.counts .none,
      ["capitalize", "isalnum", "isalpha", "isascii", "isdigit", "islower", "isspace", "istitle",
        "isupper", "lower", "swapcase", "title", "upper"]),
    (.counts .one, ["join", "partition", "removeprefix", "removesuffix", "rpartition", "zfill"]),
    (.counts (.expectedAtMost 1), ["lstrip", "rstrip", "strip"]),
    (.counts (.expectedAtMost 2), ["center", "ljust", "rjust"]),
    (.counts (.atMost 1), ["expandtabs", "splitlines"]),
    (.counts (.atMost 2), ["rsplit", "split"]),
    (.fails (.sliceIndices true),
      ["count", "endswith", "find", "index", "rfind", "rindex", "startswith"])]

def stringMethods : MethodTable :=
  [(.counts .none, ["casefold", "isdecimal", "isidentifier", "isnumeric", "isprintable"]),
    (.counts .one, ["format_map", "translate"]),
    (.counts (.atMost 2), ["encode"]),
    (.fails (.argumentType "replace" 1 "str" "dict"), ["replace"]),
    (.formats, ["format"]),
    (.translates, ["maketrans"])] ++ textMethods

def bytesMethods : MethodTable :=
  [(.counts .one, ["fromhex"]),
    (.counts (.atMost 2), ["decode", "hex", "translate"]),
    (.counts (.expected 2), ["maketrans"]),
    (.fails (.notBytes "dict"), ["replace"])] ++ textMethods

def integerMethods : MethodTable :=
  [(.counts .none, ["as_integer_ratio", "bit_count", "bit_length", "conjugate"]),
    (.counts (.atMostPositional 2), ["from_bytes", "to_bytes"])]

def floatMethods : MethodTable :=
  [(.counts .none, ["as_integer_ratio", "conjugate", "hex", "is_integer"]),
    (.counts .one, ["fromhex"])]

def decimalMethods : MethodTable :=
  [(.counts .none,
      ["adjusted", "as_integer_ratio", "as_tuple", "canonical", "conjugate", "copy_abs",
        "copy_negate", "is_canonical", "is_finite", "is_infinite", "is_nan", "is_qnan", "is_signed",
        "is_snan", "is_zero", "radix"]),
    (.counts .one, ["from_float"]),
    (.counts (.anonymous 1),
      ["exp", "is_normal", "is_subnormal", "ln", "log10", "logb", "logical_invert", "next_minus",
        "next_plus", "normalize", "number_class", "sqrt", "to_eng_string"]),
    (.counts (.anonymous 2),
      ["compare", "compare_signal", "compare_total", "compare_total_mag", "copy_sign",
        "logical_and", "logical_or", "logical_xor", "max", "max_mag", "min", "min_mag",
        "next_toward", "remainder_near", "rotate", "same_quantum", "scaleb", "shift", "to_integral",
        "to_integral_exact", "to_integral_value"]),
    (.fails .notArithmeticContext, ["fma", "quantize"])]

def listMethods : MethodTable :=
  [(.counts .none, ["clear", "copy", "reverse"]),
    (.counts .one, ["append", "count", "extend", "remove"]),
    (.counts (.expected 2), ["insert"]),
    (.counts (.expectedAtMost 1), ["pop"]),
    (.counts (.atMost 2), ["sort"]),
    (.fails (.sliceIndices false), ["index"])]

def tupleMethods : MethodTable :=
  [(.counts .one, ["count"]), (.fails (.sliceIndices false), ["index"])]

def setMethods : MethodTable :=
  [(.counts .none, ["clear", "copy", "pop"]),
    (.counts .one,
      ["add", "discard", "isdisjoint", "issubset", "issuperset", "remove", "symmetric_difference",
        "symmetric_difference_update"]),
    (.gathers,
      ["difference", "difference_update", "intersection", "intersection_update", "union",
        "update"])]

def dayMethods : MethodTable :=
  [(.counts .none,
      ["ctime", "isocalendar", "isoweekday", "timetuple", "today", "toordinal", "weekday"]),
    (.counts .one, ["fromisoformat"]),
    (.counts (.exactly 1), ["fromordinal"]),
    (.counts (.atMost 1), ["strftime"]),
    (.fails (.notInteger "dict"), ["fromisocalendar", "replace"])]

def dateMethods : MethodTable :=
  [(.counts .none, ["isoformat"]), (.counts .one, ["fromtimestamp"])] ++ dayMethods

def timestampMethods : MethodTable :=
  [(.counts .none,
      ["date", "dst", "time", "timestamp", "timetz", "tzname", "utcnow", "utcoffset",
        "utctimetuple"]),
    (.counts (.exactly 1), ["utcfromtimestamp"]),
    (.counts (.exactly 2), ["strptime"]),
    (.counts (.atMost 1), ["astimezone", "now"]),
    (.counts (.atMost 2), ["fromtimestamp", "isoformat"]),
    (.fails (.argumentType "combine" 1 "datetime.date" "dict"), ["combine"])] ++ dayMethods

def errorMethods : MethodTable := [(.counts .one, ["add_note", "with_traceback"])]

/-- The methods of a type, by the class of the type. -/
def typeMethods (className : String) : MethodTable :=
  let leaf : MethodTable :=
    [(.counts (.withReceiver 2 2), ["serialize", "parse_value"]),
      (.counts (.withReceiver 2 3), ["parse_literal"])]
  let checked : MethodTable := [(.counts (.withReceiver 1 1), ["assert_valid"])]
  match className with
  | "ListType" | "NonNullType" => []
  | "ScalarType" => leaf ++ checked
  | "EnumType" => (.counts (.withReceiver 2 2), ["get_value"]) :: leaf ++ checked
  | _ => checked

def methods : Value → MethodTable
  | str _ => stringMethods
  | bytes _ => bytesMethods
  | bool _ | int _ => integerMethods
  | float .. => floatMethods
  | decimal .. => decimalMethods
  | list _ | growing .. => listMethods
  | tuple _ => tupleMethods
  | set .. => setMethods
  | date _ => dateMethods
  | timestamp _ => timestampMethods
  | error _ => errorMethods
  | type _ className _ => typeMethods className
  | _ => []

/-- The names that every value answers to. -/
def commonNames : List String :=
  ["__class__", "__delattr__", "__dir__", "__doc__", "__eq__", "__format__", "__ge__",
    "__getattribute__", "__getstate__", "__gt__", "__hash__", "__init__", "__init_subclass__",
    "__le__", "__lt__", "__ne__", "__new__", "__reduce__", "__reduce_ex__", "__repr__",
    "__setattr__", "__sizeof__", "__str__", "__subclasshook__"]

/-- The names that all values with items answer to. -/
def itemNames : List String := ["__contains__", "__iter__", "__len__"]

/-- The form of a method, if a value has one of the name. -/
def methodForm? (value : Value) (name : String) : Option MethodForm :=
  (value.methods.find? fun entry => entry.2.contains name).map (·.1)

def hasMethod (value : Value) (name : String) : Bool :=
  (value.methodForm? name).isSome || commonNames.contains name
    || (value.items?.isSome && itemNames.contains name)

/-- A value as the faults of a call name it. -/
def givenName : Value → String
  | null => "None"
  | value => value.typeName

/-- How the fields of a request appear among the values of a call. -/
def fieldInfoName : String := "ResolveInfo"

/-- Calls a method for a field with the given arguments and context. -/
def callMethod (receiver : Value) (name : String) (arguments context : Value) :
    Except ValueFault Value :=
  match receiver.methodForm? name with
  | some (.counts arity) => .error (.refusedCall receiver.className name arity)
  | some (.fails fault) => .error fault
  | some .formats =>
    match receiver with
    | str template => (format template [arguments, context, str fieldInfoName]).map str
    | other => .ok other
  | some .translates =>
    match context with
    | str _ => .error (.argumentType name 3 "str" fieldInfoName)
    | other => .error (.argumentType name 2 "str" other.givenName)
  | some .gathers =>
    match context.items? with
    | none => .error (.notIterable context.typeName)
    | some items =>
      match unhashableItem? items with
      | some part => .error (.unhashable part.typeName)
      | none => .error (.notIterable fieldInfoName)
  | none => .error (.refusedCall receiver.className name (.expected 0))

end Value

end GraphQL
