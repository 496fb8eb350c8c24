import GraphQL.Text.Digit
import GraphQL.Value.Text

/-!
Texts with fields in braces, which are filled in with the texts of values. A field holds the place
of its value, or nothing when the fields take the values in turn.
-/

namespace GraphQL

namespace Value

/-- How the fields of a text found their values so far. -/
inductive Numbering where
  | unused
  | inTurn (next : Nat)
  | byPlace
deriving DecidableEq, Repr

/-- The part of a field that says which value it stands for. -/
def fieldName (field : List Char) : List Char :=
  field.takeWhile fun c => c != '.' && c != '[' && c != '!' && c != ':'

/-- The place that a field asks for, and the numbering behind it. -/
def fieldPlace (numbering : Numbering) (field : List Char) :
    Except ValueFault (Nat × Numbering) :=
  let name := fieldName field
  if name.isEmpty then
    match numbering with
    | .unused => .ok (0, .inTurn 1)
    | .inTurn next => .ok (next, .inTurn (next + 1))
    | .byPlace => .error (.mixedNumbering true)
  else
    match name.mapM Text.asciiDigit? with
    | none => .error (.missingKey (String.ofList name))
    | some digits =>
      match numbering with
      | .inTurn _ => .error (.mixedNumbering false)
      | _ => .ok (Text.ofDigits digits, .byPlace)

/-- Fills in what is left of a text; the field that it stands in, if any, is given in reverse. -/
def formatFrom (given : List Value) (numbering : Numbering) (field : Option (List Char))
    (rest : List Char) : Except ValueFault (List Char) :=
  match field, rest with
  | none, [] => .ok []
  | some _, [] => .error .openField
  | none, '\x7b' :: '\x7b' :: rest => do
    return '\x7b' :: (← formatFrom given numbering none rest)
  | none, ['\x7b'] => .error (.singleBrace '\x7b')
  | none, '\x7b' :: rest => formatFrom given numbering (some []) rest
  | none, '\x7d' :: '\x7d' :: rest => do
    return '\x7d' :: (← formatFrom given numbering none rest)
  | none, '\x7d' :: _ => .error (.singleBrace '\x7d')
  | none, c :: rest => do return c :: (← formatFrom given numbering none rest)
  | some inside, '\x7d' :: rest => do
    let (place, numbering) ← fieldPlace numbering inside.reverse
    match given[place]? with
    | none => throw (.missingReplacement place)
    | some value =>
      let text ← value.text
      return text.toList ++ (← formatFrom given numbering none rest)
  | some inside, c :: rest => formatFrom given numbering (some (c :: inside)) rest

def format (template : String) (given : List Value) : Except ValueFault String := do
  return String.ofList (← formatFrom given .unused none template.toList)

end Value

end GraphQL
