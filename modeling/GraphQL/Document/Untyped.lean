import GraphQL.Document
import GraphQL.Value.Equality
import GraphQL.Value.Text

/-!
Literals as values without regard to a type: what a custom scalar is given to read.
-/

namespace GraphQL

/-- The values of variables. A variable without a value is missing. -/
abbrev Variables := List (String × Value)

/-- The variables among the entries of a map: those under text keys. -/
def Variables.ofEntries (entries : List (Value × Value)) : Variables :=
  entries.filterMap fun (name, value) => name.string?.map fun key => (key, value)

namespace Literal

/-- The number of digits up to which integers are read. -/
def maxDigits : Nat := 4300

/-- The integer of a literal. -/
def readInt (numeral : String) : Except ValueFault Int :=
  let (negative, digits) := Numeral.takeSign numeral.toList
  if maxDigits < digits.length then .error (.longNumeral digits.length)
  else
    let size : Int := Text.ofDigits (digits.filterMap Text.asciiDigit?)
    .ok (if negative then -size else size)

/-- The floating point number of a literal, infinite beyond the largest. -/
def readFloat (numeral : String) : Binary64 :=
  ((Numeral.ofChars? numeral.toList).map (·.toBinary64)).getD .nan

mutual

def untyped (vars : Variables) : Literal → Except ValueFault Value
  | reference _ name => .ok ((vars.lookup name).getD .undefined)
  | int _ numeral => (readInt numeral).map .int
  | float _ numeral => .ok (.ofFloat (readFloat numeral))
  | string _ text _ => .ok (.str text)
  | boolean _ value => .ok (.bool value)
  | null _ => .ok .null
  | enum _ name => .ok (.str name)
  | list _ items => (untypedItems vars items).map .list
  | object _ fields => (untypedFields vars fields).map .ofEntries

def untypedItems (vars : Variables) : List Literal → Except ValueFault (List Value)
  | [] => .ok []
  | item :: rest => do return (← untyped vars item) :: (← untypedItems vars rest)

def untypedFields (vars : Variables) :
    List (String × Literal) → Except ValueFault (List (Value × Value))
  | [] => .ok []
  | (name, field) :: rest => do
    return (.str name, ← untyped vars field) :: (← untypedFields vars rest)

end

end Literal

end GraphQL
