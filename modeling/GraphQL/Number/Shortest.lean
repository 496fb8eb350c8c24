import GraphQL.Number.Binary64

/-!
The shortest decimal text of a binary floating point number: the fewest digits that read back as
the same number, and among those the nearest. `Binary64.text` writes them positionally between
`0.0001` and `10 ^ 16` and with an exponent elsewhere.
-/

namespace GraphQL

namespace Binary64

/-- A positive fraction. -/
structure Magnitude where
  numerator : Nat
  denominator : Nat

namespace Magnitude

def le (a b : Magnitude) : Bool :=
  a.numerator * b.denominator ≤ b.numerator * a.denominator

def lt (a b : Magnitude) : Bool :=
  a.numerator * b.denominator < b.numerator * a.denominator

/-- `count * 10 ^ power`. -/
def ofDecimal (count : Nat) (power : Int) : Magnitude :=
  if 0 ≤ power then ⟨count * Nat.pow 10 power.toNat, 1⟩ else ⟨count, Nat.pow 10 (-power).toNat⟩

/-- `count * 2 ^ power`. -/
def ofBinary (count : Nat) (power : Int) : Magnitude :=
  if 0 ≤ power then ⟨count * Nat.pow 2 power.toNat, 1⟩ else ⟨count, Nat.pow 2 (-power).toNat⟩

/-- The whole number of steps `10 ^ power` below a fraction. -/
def steps (a : Magnitude) (power : Int) : Nat :=
  if 0 ≤ power then a.numerator / (a.denominator * Nat.pow 10 power.toNat)
  else a.numerator * Nat.pow 10 (-power).toNat / a.denominator

/-- The exponent `k` with `10 ^ k ≤ a < 10 ^ (k + 1)`, sought around an estimate by logarithms. -/
def decimalOrder (a : Magnitude) : Int :=
  let estimate := ((a.numerator.log2 : Int) - a.denominator.log2) * 30103 / 100000
  let reached (k : Int) : Bool := (ofDecimal 1 k).le a
  if reached (estimate + 1) then estimate + 1
  else if reached estimate then estimate
  else estimate - 1

end Magnitude

/-- The numbers that round to one floating point number; the bounds belong to it when the
significand is even. -/
structure Neighbourhood where
  value : Magnitude
  lower : Magnitude
  upper : Magnitude
  closed : Bool

def neighbourhood (significand : Nat) (exponent : Int) : Neighbourhood where
  value := .ofBinary (4 * significand) (exponent - 2)
  lower :=
    if significand = precision / 2 ∧ minExponent < exponent then
      .ofBinary (4 * significand - 1) (exponent - 2)
    else .ofBinary (4 * significand - 2) (exponent - 2)
  upper := .ofBinary (4 * significand + 2) (exponent - 2)
  closed := significand % 2 = 0

def Neighbourhood.contains (near : Neighbourhood) (a : Magnitude) : Bool :=
  if near.closed then near.lower.le a && a.le near.upper else near.lower.lt a && a.lt near.upper

/-- Digits and the power of ten that scales them. -/
structure Scaled where
  digits : Nat
  power : Int
deriving DecidableEq, Repr

/-- Of the two neighbours of the value on the grid `10 ^ power`, the nearer one that reads back; of
two equally near ones the even. -/
def Neighbourhood.onGrid? (near : Neighbourhood) (power : Int) : Option Scaled :=
  let below := near.value.steps power
  let above := below + 1
  let twiceValue : Magnitude := ⟨2 * near.value.numerator, near.value.denominator⟩
  let middle := Magnitude.ofDecimal (below + above) power
  let lowerIsNearer := twiceValue.lt middle || (twiceValue.le middle && below % 2 == 0)
  match near.contains (.ofDecimal below power), near.contains (.ofDecimal above power) with
  | true, true => some ⟨if lowerIsNearer then below else above, power⟩
  | true, false => some ⟨below, power⟩
  | false, true => some ⟨above, power⟩
  | false, false => none

/-- Tries ever finer grids, from one digit on. -/
def Neighbourhood.search (near : Neighbourhood) : Nat → Int → Scaled
  | 0, power => ⟨near.value.steps power, power⟩
  | tries + 1, power =>
    match near.onGrid? power with
    | some scaled => scaled
    | none => near.search tries (power - 1)

def shortest (significand : Nat) (exponent : Int) : Scaled :=
  let near := neighbourhood significand exponent
  near.search 17 near.value.decimalOrder

/-- How digits are laid out: below `positionalEnd` and from `positionalStart` on without an
exponent. -/
structure Layout where
  positionalStart : Int
  positionalEnd : Int
  exponentWidth : Nat

/-- From `0.0001` to `10 ^ 16` without an exponent; an exponent has a sign and two digits. -/
def layout : Layout := ⟨-3, 16, 2⟩

def dropTrailingZeros (cs : List Char) : List Char :=
  (cs.reverse.dropWhile (· == '0')).reverse

def fill (width : Nat) (cs : List Char) : List Char :=
  List.replicate (width - cs.length) '0' ++ cs

/-- Writes digits so that the point stands after the first `point` of them. -/
def Layout.write (style : Layout) (scaled : Scaled) : List Char :=
  let all := Nat.toDigits 10 scaled.digits
  let point : Int := all.length + scaled.power
  let digits := dropTrailingZeros all
  if style.positionalStart ≤ point ∧ point ≤ style.positionalEnd then
    if point ≤ 0 then '0' :: '.' :: List.replicate (-point).toNat '0' ++ digits
    else
      let whole := digits.take point.toNat ++ List.replicate (point.toNat - digits.length) '0'
      let rest := digits.drop point.toNat
      whole ++ '.' :: if rest.isEmpty then ['0'] else rest
  else
    let exponent := point - 1
    let fraction := match digits with
      | first :: second :: rest => first :: '.' :: second :: rest
      | one => one
    fraction ++ 'e' :: (if exponent < 0 then '-' else '+')
      :: fill style.exponentWidth (Nat.toDigits 10 exponent.natAbs)

def text : Binary64 → String
  | .nan => "nan"
  | .infinite negative => if negative then "-inf" else "inf"
  | .finite negative significand exponent =>
    let sign := if negative then ['-'] else []
    String.ofList <|
      sign ++ if significand = 0 then ['0', '.', '0']
        else layout.write (shortest significand exponent)

end Binary64

end GraphQL
