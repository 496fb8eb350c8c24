import GraphQL.Number.Binary64
import GraphQL.Text.Blank
import GraphQL.Text.Digit

/-!
Decimal numerals: an optional sign, digits with an optional point, and an optional exponent. Digits
of every script count. `Numeral.scan?` takes a numeral off the front of a text, and
`numericString?` reads a whole text that holds one numeral between blanks.
-/

namespace GraphQL

structure Numeral where
  negative : Bool
  whole : List Nat
  fraction : List Nat
  exponent : Int
deriving DecidableEq, Repr

namespace Numeral

open Text

def coefficient (n : Numeral) : Nat := ofDigits (n.whole ++ n.fraction)

/-- The power of ten that scales the coefficient. -/
def scale (n : Numeral) : Int := n.exponent - n.fraction.length

def toBinary64 (n : Numeral) : Binary64 :=
  .ofScientific n.negative n.coefficient n.scale

/-- The leading digits of a text and what follows them. -/
def takeDigits : List Char → List Nat × List Char
  | [] => ([], [])
  | c :: rest =>
    match digitValue? c with
    | some digit =>
      let (digits, tail) := takeDigits rest
      (digit :: digits, tail)
    | none => ([], c :: rest)

/-- A sign, if there is one; `true` for a minus. -/
def takeSign : List Char → Bool × List Char
  | '-' :: rest => (true, rest)
  | '+' :: rest => (false, rest)
  | cs => (false, cs)

/-- An exponent mark with its digits. A mark without digits is left in place. -/
def takeExponent (cs : List Char) : Int × List Char :=
  match cs with
  | c :: rest =>
    if c = 'e' ∨ c = 'E' then
      let (negative, afterSign) := takeSign rest
      match takeDigits afterSign with
      | ([], _) => (0, cs)
      | (digits, tail) =>
        let size : Int := ofDigits digits
        (if negative then -size else size, tail)
    else (0, cs)
  | [] => (0, [])

def takeFraction (cs : List Char) : List Nat × List Char :=
  match cs with
  | '.' :: rest => takeDigits rest
  | _ => ([], cs)

def scan? (cs : List Char) : Option (Numeral × List Char) :=
  let (negative, afterSign) := takeSign cs
  let (whole, afterWhole) := takeDigits afterSign
  let (fraction, afterFraction) := takeFraction afterWhole
  if whole.isEmpty && fraction.isEmpty then none
  else
    let (exponent, rest) := takeExponent afterFraction
    some (⟨negative, whole, fraction, exponent⟩, rest)

/-- A text that is one numeral and nothing else. -/
def ofChars? (cs : List Char) : Option Numeral :=
  match scan? cs with
  | some (n, []) => some n
  | _ => none

theorem takeDigits_append (cs : List Char) :
    ∃ front, cs = front ++ (takeDigits cs).2 ∧ front.length = (takeDigits cs).1.length := by
  induction cs with
  | nil => exact ⟨[], rfl, rfl⟩
  | cons c rest ih =>
    obtain ⟨front, split, size⟩ := ih
    simp only [takeDigits]
    cases digitValue? c with
    | none => exact ⟨[], rfl, rfl⟩
    | some digit => exact ⟨c :: front, by rw [List.cons_append, ← split], by simp [size]⟩

end Numeral

/-- The outcome of reading a text as a number. -/
inductive NumericString where
  | notNumeric
  /-- Numeric in shape, but set off by information separators, which conversion does not strip. -/
  | separated
  | numeral (value : Numeral)
deriving DecidableEq, Repr

/-- Reads a numeral that may stand between blanks. -/
def numericString (text : String) : NumericString :=
  let cs := text.toList
  match Numeral.ofChars? (Text.trim Text.isBlank cs) with
  | none => .notNumeric
  | some n =>
    if (Numeral.ofChars? (Text.trim Text.isNarrowBlank cs)).isSome then .numeral n else .separated

namespace Binary64

open Text

/-- Removes the underscores that stand between two digits. -/
def dropUnderscores : List Char → List Char
  | d :: '_' :: e :: rest =>
    if isDigit d && isDigit e then d :: dropUnderscores (e :: rest)
    else d :: '_' :: dropUnderscores (e :: rest)
  | c :: rest => c :: dropUnderscores rest
  | [] => []

def named? (negative : Bool) (word : String) : Option Binary64 :=
  if word = "inf" ∨ word = "infinity" then some (.infinite negative)
  else if word = "nan" then some .nan
  else none

/-- Reads a number as people type it: a numeral or the name of a special value, between blanks. -/
def read? (text : String) : Option Binary64 :=
  let cs := trim isNarrowBlank text.toList
  match Numeral.ofChars? (dropUnderscores cs) with
  | some n => some n.toBinary64
  | none =>
    let (negative, word) := Numeral.takeSign cs
    named? negative (String.ofList (word.map Char.toLower))

end Binary64

end GraphQL
