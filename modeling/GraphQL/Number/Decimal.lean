import GraphQL.Number.Numeral

/-!
Decimal numbers of any precision, which keep their digits and their exponent: `1.50` and `1.5` are
equal numbers but different decimals. `Decimal.text` writes one and `Decimal.read?` reads it back.
-/

namespace GraphQL

inductive Decimal where
  | finite (negative : Bool) (coefficient : Nat) (exponent : Int)
  | infinite (negative : Bool)
  /-- Not a number, with a diagnostic payload; a signaling one takes no part in arithmetic. -/
  | nan (negative signaling : Bool) (payload : Nat)
deriving DecidableEq, Repr, Inhabited

namespace Decimal

open Text

def maxAdjusted : Int := 999999999999999999

def minExponent : Int := -1999999999999999997

def digits (n : Nat) : List Char := Nat.toDigits 10 n

/-- The exponent of the leading digit. -/
def adjusted (coefficient : Nat) (exponent : Int) : Int :=
  exponent + (digits coefficient).length - 1

/-- The exponents that a decimal can have. -/
def inBounds (coefficient : Nat) (exponent : Int) : Bool :=
  minExponent ≤ exponent && adjusted coefficient exponent ≤ maxAdjusted

def signText (negative : Bool) : List Char := if negative then ['-'] else []

def signedText (n : Int) : List Char :=
  (if n < 0 then '-' else '+') :: digits n.natAbs

/-- Plain notation while the exponent is at most zero and the leading digit stands no further than
six places behind the point; scientific notation elsewhere. -/
def finiteText (coefficient : Nat) (exponent : Int) : List Char :=
  let shown := digits coefficient
  let point : Int := shown.length + exponent
  if exponent ≤ 0 ∧ -6 < point then
    if point ≤ 0 then '0' :: '.' :: List.replicate (-point).toNat '0' ++ shown
    else if exponent = 0 then shown
    else shown.take point.toNat ++ '.' :: shown.drop point.toNat
  else
    let fraction := match shown with
      | first :: second :: rest => first :: '.' :: second :: rest
      | one => one
    fraction ++ 'E' :: signedText (point - 1)

def text : Decimal → String
  | .finite negative coefficient exponent =>
    String.ofList (signText negative ++ finiteText coefficient exponent)
  | .infinite negative => String.ofList (signText negative ++ "Infinity".toList)
  | .nan negative signaling payload =>
    String.ofList <| signText negative ++ (if signaling then ['s'] else []) ++ "NaN".toList
      ++ if payload = 0 then [] else digits payload

/-- The ASCII form of a decimal text: no blanks around it, no underscores, ASCII digits. -/
def plainChars (text : String) : List Char :=
  ((trim isBlank text.toList).filter (· != '_')).map fun c =>
    match digitValue? c with
    | some digit => Char.ofNat (digit + 48)
    | none => c

def payload? (cs : List Char) : Option Nat :=
  (cs.mapM asciiDigit?).map ofDigits

/-- The special value that a lower-case word names. -/
def special? (negative : Bool) : List Char → Option Decimal
  | ['i', 'n', 'f'] => some (.infinite negative)
  | ['i', 'n', 'f', 'i', 'n', 'i', 't', 'y'] => some (.infinite negative)
  | 'n' :: 'a' :: 'n' :: rest => (payload? rest).map (.nan negative false)
  | 's' :: 'n' :: 'a' :: 'n' :: rest => (payload? rest).map (.nan negative true)
  | _ => none

def ofNumeral? (n : Numeral) : Option Decimal :=
  if inBounds n.coefficient n.scale then some (.finite n.negative n.coefficient n.scale) else none

def read? (text : String) : Option Decimal :=
  let cs := plainChars text
  match Numeral.ofChars? cs with
  | some n => ofNumeral? n
  | none =>
    let (negative, word) := Numeral.takeSign cs
    special? negative (word.map Char.toLower)

def ofInt (n : Int) : Decimal := .finite (decide (n < 0)) n.natAbs 0

/-- Strips common factors of two from `significand / 2 ^ power`. -/
def reduceTwos : Nat → Nat → Nat × Nat
  | significand, 0 => (significand, 0)
  | significand, power + 1 =>
    if significand % 2 = 0 then reduceTwos (significand / 2) power else (significand, power + 1)

/-- The exact decimal value of a floating point number. -/
def ofBinary64 : Binary64 → Decimal
  | .nan => .nan false false 0
  | .infinite negative => .infinite negative
  | .finite negative significand exponent =>
    if 0 ≤ exponent then .finite negative (significand * Nat.pow 2 exponent.toNat) 0
    else if significand = 0 then .finite negative 0 0
    else
      let (significand, power) := reduceTwos significand (-exponent).toNat
      .finite negative (significand * Nat.pow 5 power) (-power)

def toBinary64 : Decimal → Binary64
  | .finite negative coefficient exponent => .ofScientific negative coefficient exponent
  | .infinite negative => .infinite negative
  | .nan .. => .nan

def isSignaling : Decimal → Bool
  | .nan _ signaling _ => signaling
  | _ => false

def isZero : Decimal → Bool
  | .finite _ coefficient _ => coefficient = 0
  | _ => false

/-- Numeric equality. Numbers whose leading digits stand apart are told apart without scaling. -/
def equals : Decimal → Decimal → Bool
  | .finite n c e, .finite n' c' e' =>
    if c = 0 ∨ c' = 0 then c = c'
    else if n ≠ n' ∨ adjusted c e ≠ adjusted c' e' then false
    else if e ≤ e' then c = c' * Nat.pow 10 (e' - e).toNat
    else c * Nat.pow 10 (e - e').toNat = c'
  | .infinite n, .infinite n' => n = n'
  | _, _ => false

end Decimal

end GraphQL
