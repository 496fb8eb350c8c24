/-!
Binary floating point numbers of 64 bits, as exact values. A finite number is a signed significand
below `2 ^ 53` times a power of two from `2 ^ -1074` on; `Binary64.ofRatio` rounds a quotient to the
nearest of them, a tie to the even significand.
-/

namespace GraphQL

inductive Binary64 where
  | nan
  | infinite (negative : Bool)
  | finite (negative : Bool) (significand : Nat) (exponent : Int)
deriving DecidableEq, Repr, Inhabited

namespace Binary64

def minExponent : Int := -1074

def maxExponent : Int := 971

/-- The number of significand values, `2 ^ 53`. -/
def precision : Nat := Nat.pow 2 53

def zero (negative : Bool) : Binary64 := .finite negative 0 minExponent

/-- A quotient rounded to the nearest natural number, a tie to the even one. -/
def divideToEven (numerator denominator : Nat) : Nat :=
  let quotient := numerator / denominator
  let twice := 2 * (numerator % denominator)
  if twice < denominator then quotient
  else if denominator < twice then quotient + 1
  else quotient + quotient % 2

/-- The exponent `e` with `2 ^ e ≤ numerator / denominator < 2 ^ (e + 1)`. -/
def binaryOrder (numerator denominator : Nat) : Int :=
  let up := numerator.log2
  let down := denominator.log2
  let reached :=
    if down ≤ up then denominator * Nat.pow 2 (up - down) ≤ numerator
    else denominator ≤ numerator * Nat.pow 2 (down - up)
  (up : Int) - down - if reached then 0 else 1

/-- The number nearest to a quotient, infinite when it rounds to `2 ^ 1024` or more. -/
def ofRatio (negative : Bool) (numerator denominator : Nat) : Binary64 :=
  if numerator = 0 then zero negative
  else
    let exponent := max (binaryOrder numerator denominator - 52) minExponent
    let significand :=
      if 0 ≤ exponent then divideToEven numerator (denominator * Nat.pow 2 exponent.toNat)
      else divideToEven (numerator * Nat.pow 2 (-exponent).toNat) denominator
    let (significand, exponent) :=
      if significand = precision then (precision / 2, exponent + 1) else (significand, exponent)
    if maxExponent < exponent then .infinite negative else .finite negative significand exponent

def ofNat (n : Nat) : Binary64 := ofRatio false n 1

def ofInt (n : Int) : Binary64 := ofRatio (decide (n < 0)) n.natAbs 1

/-- A decimal numeral, the digits `coefficient` scaled by a power of ten. -/
def ofScientific (negative : Bool) (coefficient : Nat) (exponent : Int) : Binary64 :=
  let order := exponent + (Nat.toDigits 10 coefficient).length
  if coefficient = 0 then zero negative
  else if 310 < order then .infinite negative
  else if order < -330 then zero negative
  else if 0 ≤ exponent then ofRatio negative (coefficient * Nat.pow 10 exponent.toNat) 1
  else ofRatio negative coefficient (Nat.pow 10 (-exponent).toNat)

/-- A finite number as a signed fraction with a positive denominator. -/
def fraction? : Binary64 → Option (Int × Nat)
  | .finite negative significand exponent =>
    let magnitude := if 0 ≤ exponent then significand * Nat.pow 2 exponent.toNat else significand
    let denominator := if 0 ≤ exponent then 1 else Nat.pow 2 (-exponent).toNat
    some (if negative then -(magnitude : Int) else magnitude, denominator)
  | _ => none

def isNan : Binary64 → Bool
  | .nan => true
  | _ => false

def isFinite : Binary64 → Bool
  | .finite .. => true
  | _ => false

def isZero : Binary64 → Bool
  | .finite _ significand _ => significand = 0
  | _ => false

/-- The integer that a finite number without a fractional part equals. -/
def toInt? (x : Binary64) : Option Int :=
  x.fraction?.bind fun (numerator, denominator) =>
    if numerator % denominator = 0 then some (numerator / denominator) else none

/-- Numeric equality: both zeros are one number and no number equals a `nan`. -/
def equals : Binary64 → Binary64 → Bool
  | .finite n m e, .finite n' m' e' =>
    match fraction? (.finite n m e), fraction? (.finite n' m' e') with
    | some (a, b), some (c, d) => a * d = c * b
    | _, _ => false
  | .infinite n, .infinite n' => n = n'
  | _, _ => false

def equalsInt (x : Binary64) (n : Int) : Bool := x.toInt? = some n

/-- The sum of two numbers, rounded once. -/
def add : Binary64 → Binary64 → Binary64
  | .nan, _ => .nan
  | _, .nan => .nan
  | .infinite n, .infinite n' => if n = n' then .infinite n else .nan
  | .infinite n, _ => .infinite n
  | _, .infinite n => .infinite n
  | .finite n m e, .finite n' m' e' =>
    match fraction? (.finite n m e), fraction? (.finite n' m' e') with
    | some (a, b), some (c, d) =>
      let sum := a * d + c * b
      if sum = 0 then zero (n && n') else ofRatio (decide (sum < 0)) sum.natAbs (b * d)
    | _, _ => .nan

end Binary64

end GraphQL
