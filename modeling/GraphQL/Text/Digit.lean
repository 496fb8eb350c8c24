/-!
Decimal digits of every script. Each script writes its ten digits in a row, so a digit is known by
the code point of its zero.
-/

namespace GraphQL.Text

def digitZeros : List Nat :=
  [
    0x30, 0x660, 0x6f0, 0x7c0, 0x966, 0x9e6, 0xa66, 0xae6, 0xb66, 0xbe6, 0xc66, 0xce6, 0xd66,
    0xde6, 0xe50, 0xed0, 0xf20, 0x1040, 0x1090, 0x17e0, 0x1810, 0x1946, 0x19d0, 0x1a80, 0x1a90,
    0x1b50, 0x1bb0, 0x1c40, 0x1c50, 0xa620, 0xa8d0, 0xa900, 0xa9d0, 0xa9f0, 0xaa50, 0xabf0,
    0xff10, 0x104a0, 0x10d30, 0x11066, 0x110f0, 0x11136, 0x111d0, 0x112f0, 0x11450, 0x114d0,
    0x11650, 0x116c0, 0x11730, 0x118e0, 0x11950, 0x11c50, 0x11d50, 0x11da0, 0x16a60, 0x16ac0,
    0x16b50, 0x1d7ce, 0x1d7d8, 0x1d7e2, 0x1d7ec, 0x1d7f6, 0x1e140, 0x1e2f0, 0x1e950, 0x1fbf0]

/-- The value of a decimal digit of any script. -/
def digitValue? (c : Char) : Option Nat :=
  (digitZeros.find? fun first => first ≤ c.toNat && c.toNat < first + 10).map (c.toNat - ·)

def isDigit (c : Char) : Bool := (digitValue? c).isSome

/-- The value of one of the ten ASCII digits. -/
def asciiDigit? (c : Char) : Option Nat :=
  if '0' ≤ c ∧ c ≤ '9' then some (c.toNat - '0'.toNat) else none

def isAsciiDigit (c : Char) : Bool := (asciiDigit? c).isSome

theorem asciiDigit?_lt {c : Char} {d : Nat} (read : asciiDigit? c = some d) : d < 10 := by
  simp only [asciiDigit?] at read
  split at read
  · rename_i bounds
    have upper : c.toNat ≤ '9'.toNat := bounds.2
    have nine : '9'.toNat = 57 := rfl
    have zero : '0'.toNat = 48 := rfl
    have value := Option.some.inj read
    omega
  · cases read

/-- The number that a row of digits stands for, most significant first. -/
def ofDigits (digits : List Nat) : Nat :=
  digits.foldl (fun value digit => 10 * value + digit) 0

theorem ofDigits_append_singleton (digits : List Nat) (digit : Nat) :
    ofDigits (digits ++ [digit]) = 10 * ofDigits digits + digit := by
  simp [ofDigits]

/-- Hexadecimal digits, in either case. -/
def hexDigit? (c : Char) : Option Nat :=
  if '0' ≤ c ∧ c ≤ '9' then some (c.toNat - '0'.toNat)
  else if 'a' ≤ c ∧ c ≤ 'f' then some (c.toNat - 'a'.toNat + 10)
  else if 'A' ≤ c ∧ c ≤ 'F' then some (c.toNat - 'A'.toNat + 10)
  else none

/-- The bytes that are written in two hexadecimal digits each. -/
def bytesOfHex : List Char → List UInt8
  | high :: low :: rest =>
    let digit (c : Char) : Nat := (hexDigit? c).getD 0
    (16 * digit high + digit low).toUInt8 :: bytesOfHex rest
  | _ => []

/-- The letter of a hexadecimal digit below sixteen. -/
def hexLetter (lower : Bool) (digit : Nat) : Char :=
  if digit < 10 then Char.ofNat (digit + 48)
  else Char.ofNat (digit - 10 + if lower then 97 else 65)

/-- A number in hexadecimal, filled with zeros to the given width. -/
def hex (lower : Bool) : Nat → Nat → List Char
  | 0, _ => []
  | width + 1, n => hex lower width (n / 16) ++ [hexLetter lower (n % 16)]

theorem hex_length (lower : Bool) (width n : Nat) : (hex lower width n).length = width := by
  induction width generalizing n with
  | zero => rfl
  | succ width ih => simp [hex, ih]

end GraphQL.Text
