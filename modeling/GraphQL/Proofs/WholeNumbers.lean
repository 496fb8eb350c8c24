import GraphQL.Leaf.Standard
import GraphQL.Proofs.Rounding

/-!
Whole numbers in responses. What is written for a number is in the range of 32 bits, and it is the
number itself unless conversion to floating point lost a part of it on the way; every whole number
in the range is written, in whatever form it comes.
-/

namespace GraphQL

open Amount

/-- The rational number that a numeral writes down. -/
def Numeral.value (n : Numeral) : ℚ := signed n.negative (n.coefficient * 10 ^ n.scale)

namespace Value

/-- What a number, or a numeral between blanks, stands for. -/
def amount? : Value → Option Amount
  | str text => (Numeral.ofChars? (Text.trim Text.isBlank text.toList)).map (.finite ·.value)
  | value => value.numeric?.bind Numeric.amount?

/-- The values that conversion to floating point has no part in. -/
def isBinary : Value → Bool
  | bool _ | int _ | float .. => true
  | _ => false

/-- A numeral between blanks that conversion does not strip. -/
def isSeparated : Value → Bool
  | str text => numericString text == .separated
  | _ => false

end Value

/-- A value comes to a whole number when that is what conversion to floating point makes of it.
Nothing is lost of a value that is no decimal and no text, nor of a whole number. -/
def Value.ComesTo (value : Value) (n : Int) : Prop :=
  ∃ exact, value.amount? = some (.finite exact) ∧ Binary64.Rounds exact n
    ∧ (value.isBinary = true ∨ (∃ whole : Int, exact = whole) → exact = n)

namespace Binary64

theorem rounds_toBinary64 {n : Numeral} {rounded : ℚ}
    (found : n.toBinary64.amount? = some (.finite rounded)) : Rounds n.value rounded :=
  rounds_ofScientific found

/-- A conversion that comes to a whole number of 32 bits came from one or from a fraction. -/
theorem eq_of_rounds {n whole : Int} (near : Rounds whole n) (least : -2147483648 ≤ n)
    (most : n ≤ 2147483647) : whole = n := by
  have least : (-2147483648 : ℚ) ≤ n := by exact_mod_cast least
  have most : (n : ℚ) ≤ 2147483647 := by exact_mod_cast most
  have close : |(n : ℚ) - whole| < 1 := by
    rcases le_max_iff.1 near with relative | absolute
    · have size : |(whole : ℚ)| ≤ |(n : ℚ)| + |(n : ℚ) - whole| := by
        have := abs_sub_abs_le_abs_sub (whole : ℚ) n
        rw [abs_sub_comm] at this
        linarith
      have bound : |(n : ℚ)| ≤ 2147483648 := abs_le.2 ⟨least, by linarith⟩
      rw [le_div_iff₀ (by positivity)] at relative
      linarith
    · exact absolute.trans_lt (zpow_lt_one_of_neg₀ (by norm_num) (by norm_num))
  have close : |n - whole| < 1 := by exact_mod_cast close
  rw [Int.abs_lt_one_iff] at close
  omega

end Binary64

namespace Leaf

theorem int32_eq_ok_iff (direction : LeafDirection) (n : Int) (original form : Value) :
    int32 direction n original = .ok form ↔ form = .int n ∧ isInt32 n = true := by
  unfold int32
  cases isInt32 n with
  | false => simp [refuse]
  | true => simp [eq_comm]

theorem isInt32_iff (n : Int) : isInt32 n = true ↔ -2147483648 ≤ n ∧ n ≤ 2147483647 := by
  simp [isInt32]

theorem integral_eq_ok_iff (direction : LeafDirection) (x : Binary64) (original form : Value) :
    integral direction x original = .ok form
      ↔ ∃ n : Int, form = .int n ∧ isInt32 n = true ∧ x.amount? = some (.finite n) := by
  cases x with
  | nan => simp [integral, refuse, Binary64.amount?]
  | infinite negative => simp [integral, refuse, Binary64.amount?]
  | finite negative significand exponent =>
      rw [integral]
      · cases found : (Binary64.finite negative significand exponent).toInt? with
        | none =>
            simp only [refuse, reduceCtorEq, false_iff, not_exists, not_and]
            intro n _ _ amount
            rw [(Binary64.toInt?_eq_some_iff _ _).2 amount] at found
            cases found
        | some n =>
            simp only [int32_eq_ok_iff, ← Binary64.toInt?_eq_some_iff, found, Option.some.injEq]
            constructor
            · rintro ⟨same, inside⟩
              exact ⟨n, same, inside, rfl⟩
            · rintro ⟨other, same, inside, rfl⟩
              exact ⟨same, inside⟩
      · simp
      · simp

/-- What a value is converted to stands for the value, up to rounding. -/
theorem rounds_numeric {value : Value} {x : Binary64} {rounded : ℚ}
    (read : numeric? value = .ok (some x)) (found : x.amount? = some (.finite rounded))
    (other : ∀ n, value ≠ .int n) :
    ∃ exact, value.amount? = some (.finite exact) ∧ Binary64.Rounds exact rounded
      ∧ (value.isBinary = true → exact = rounded) := by
  -- Rounding takes place where a numeral or a decimal is converted; all else is converted as it is.
  cases value with
  | str text =>
      simp only [numeric?, numericString] at read
      cases scanned : Numeral.ofChars? (Text.trim Text.isBlank text.toList) with
      | none => simp [scanned] at read
      | some n =>
          simp only [scanned] at read
          split at read
          · cases read
          · cases read
          · next here =>
              split at here
              · cases here
                cases read
                exact ⟨n.value, by simp [Value.amount?, scanned], Binary64.rounds_toBinary64 found,
                  by simp [Value.isBinary]⟩
              · cases here
  | int n => exact absurd rfl (other n)
  | float y identity =>
      cases read
      exact ⟨rounded, by simp [Value.amount?, Value.numeric?, Value.Numeric.amount?, found],
        Binary64.rounds_self rounded, fun _ => rfl⟩
  | decimal d identity =>
      cases d with
      | finite negative coefficient exponent =>
          cases read
          refine ⟨signed negative (coefficient * 10 ^ exponent), rfl,
            Binary64.rounds_ofScientific found, by simp [Value.isBinary]⟩
      | infinite negative =>
          cases read
          cases found
      | nan negative signaling payload =>
          cases signaling with
          | true => cases read
          | false =>
              cases read
              cases found
  | _ => cases read

theorem numeric_of_amount {value : Value} {n : Int} (stands : value.amount? = some (.finite n))
    (least : -2147483648 ≤ n) (most : n ≤ 2147483647)
    (converts : value.isSeparated = false) (other : ∀ b, value ≠ .bool b)
    (other' : ∀ n, value ≠ .int n) :
    ∃ x, numeric? value = .ok (some x) ∧ x.amount? = some (.finite n) := by
  have whole (negative : Bool) (coefficient : Nat) (exponent : Int)
      (same : signed negative (coefficient * 10 ^ exponent) = n) :
      (Binary64.ofScientific negative coefficient exponent).amount? = some (.finite n) := by
    have nonneg : (0 : ℚ) ≤ coefficient * 10 ^ exponent := by positivity
    have size : (coefficient : ℚ) * 10 ^ exponent = n.natAbs := by
      rw [← abs_signed negative nonneg, same, Nat.cast_natAbs, Int.cast_abs]
    rw [Binary64.amount?_ofScientific_whole (n := n.natAbs) (by omega) size, ← size, same]
  cases value with
  | str text =>
      cases scanned : Numeral.ofChars? (Text.trim Text.isBlank text.toList) with
      | none => simp [Value.amount?, scanned] at stands
      | some numeral =>
          simp only [Value.amount?, scanned, Option.map_some, Option.some.injEq,
            Amount.finite.injEq] at stands
          refine ⟨numeral.toBinary64, ?_, whole _ _ _ stands⟩
          simp only [Value.isSeparated, numericString, scanned] at converts
          simp only [numeric?, numericString, scanned]
          split
          · next here => split at here <;> cases here
          · next here => simp [here] at converts
          · next here =>
              split at here
              · cases here
                rfl
              · cases here
  | bool b => exact absurd rfl (other b)
  | int n => exact absurd rfl (other' n)
  | float x identity => exact ⟨x, rfl, stands⟩
  | decimal d identity =>
      cases d with
      | finite negative coefficient exponent =>
          exact ⟨_, rfl, whole _ _ _ (Amount.finite.inj (Option.some.inj stands))⟩
      | infinite negative => cases stands
      | nan negative signaling payload => cases stands
  | _ => cases stands

theorem serialize_of_other {value : Value} (other : ∀ b, value ≠ .bool b)
    (other' : ∀ n, value ≠ .int n) :
    Int.serialize value = (liftFault (numeric? value)).bind fun
      | some x => integral .serialize x value
      | none => cannotWrite (.nonInteger value.shown) := by
  cases value with
  | bool b => exact absurd rfl (other b)
  | int n => exact absurd rfl (other' n)
  | _ => rfl

theorem serialize_eq_ok_iff {value : Value} (other : ∀ b, value ≠ .bool b)
    (other' : ∀ n, value ≠ .int n) (form : Value) :
    Int.serialize value = .ok form ↔ ∃ x, numeric? value = .ok (some x) ∧
      ∃ n : Int, form = .int n ∧ isInt32 n = true ∧ x.amount? = some (.finite n) := by
  rw [serialize_of_other other other']
  cases numeric? value with
  | error fault => simp [liftFault, Except.mapError, Except.bind]
  | ok found =>
      cases found with
      | none => simp [liftFault, Except.mapError, Except.bind, cannotWrite, refuse]
      | some x =>
          simp only [liftFault, Except.mapError, Except.bind, integral_eq_ok_iff,
            Except.ok.injEq, Option.some.injEq, exists_eq_left']

namespace Int

theorem comesTo_of_amount {value : Value} {n : Int} (stands : value.amount? = some (.finite n)) :
    value.ComesTo n :=
  ⟨n, stands, Binary64.rounds_self _, fun _ => rfl⟩

theorem comesTo_of_numeric {value : Value} {x : Binary64} {n : Int}
    (read : numeric? value = .ok (some x)) (amount : x.amount? = some (.finite n))
    (inside : isInt32 n = true) (other : ∀ n, value ≠ .int n) : value.ComesTo n := by
  obtain ⟨exact, stands, near, binary⟩ := rounds_numeric read amount other
  obtain ⟨least, most⟩ := (isInt32_iff n).1 inside
  refine ⟨exact, stands, near, ?_⟩
  rintro (here | ⟨whole, rfl⟩)
  · exact binary here
  · rw [Binary64.eq_of_rounds near least most]

theorem not_separated_of_numeric {value : Value} {x : Binary64}
    (read : numeric? value = .ok (some x)) : value.isSeparated = false := by
  cases value with
  | str text =>
      simp only [numeric?] at read
      simp only [Value.isSeparated]
      split at read
      · cases read
      · cases read
      · next here => simp [here]
  | _ => rfl

theorem unconverted {value : Value} (here : ¬ ((∀ b, value ≠ .bool b) ∧ ∀ n, value ≠ .int n)) :
    ∃ n : Int, value.amount? = some (.finite n) ∧ value.isSeparated = false
      ∧ serialize value = int32 .serialize n value := by
  cases value with
  | bool b =>
      refine ⟨if b then 1 else 0, rfl, rfl, ?_⟩
      cases b <;> rfl
  | int n => exact ⟨n, rfl, rfl, rfl⟩
  | _ => simp at here

/-- What is written as a whole number is one of 32 bits to which the value comes. The other way
round, whatever stands for a whole number of 32 bits is written as that number, unless it is a
numeral between blanks that conversion does not strip. -/
theorem whole_numbers_are_written (value : Value) :
    (∀ form, serialize value = .ok form →
        ∃ n : Int, form = .int n ∧ -2147483648 ≤ n ∧ n ≤ 2147483647 ∧ value.ComesTo n)
      ∧ ∀ n : Int, -2147483648 ≤ n → n ≤ 2147483647 → value.amount? = some (.finite n) →
        (serialize value = .ok (.int n) ↔ value.isSeparated = false) := by
  by_cases other : (∀ b, value ≠ .bool b) ∧ ∀ n, value ≠ .int n
  · have reads := serialize_eq_ok_iff other.1 other.2
    constructor
    · intro form written
      obtain ⟨x, read, n, rfl, inside, amount⟩ := (reads form).1 written
      obtain ⟨least, most⟩ := (isInt32_iff n).1 inside
      exact ⟨n, rfl, least, most, comesTo_of_numeric read amount inside other.2⟩
    · intro n least most stands
      constructor
      · intro written
        obtain ⟨x, read, _⟩ := (reads _).1 written
        exact not_separated_of_numeric read
      · intro converts
        obtain ⟨x, read, amount⟩ := numeric_of_amount stands least most converts other.1 other.2
        exact (reads _).2 ⟨x, read, n, rfl, (isInt32_iff n).2 ⟨least, most⟩, amount⟩
  · obtain ⟨m, stands, plain, same⟩ := unconverted other
    constructor
    · intro form written
      obtain ⟨rfl, inside⟩ := (int32_eq_ok_iff _ _ _ _).1 (same.symm.trans written)
      obtain ⟨least, most⟩ := (isInt32_iff m).1 inside
      exact ⟨m, rfl, least, most, comesTo_of_amount stands⟩
    · intro n least most also
      obtain rfl : n = m := by
        rw [stands] at also
        exact_mod_cast (Amount.finite.inj (Option.some.inj also)).symm
      rw [same, int32_eq_ok_iff, isInt32_iff]
      exact ⟨fun _ => plain, fun _ => ⟨rfl, least, most⟩⟩

/-- A text at the upper end of the range, with more digits than conversion keeps. -/
theorem largest_number_is_written :
    (Value.str " 21474836470000000000e-10\n").amount? = some (.finite (2147483647 : Int))
      ∧ serialize (.str " 21474836470000000000e-10\n") = .ok (.int 2147483647)
      ∧ ∃ n : Int, Value.int 2147483647 = .int n ∧ -2147483648 ≤ n ∧ n ≤ 2147483647
        ∧ (Value.str " 21474836470000000000e-10\n").ComesTo n := by
  obtain ⟨comes, written⟩ := whole_numbers_are_written (.str " 21474836470000000000e-10\n")
  have stands : (Value.str " 21474836470000000000e-10\n").amount?
      = some (.finite (2147483647 : Int)) := by
    have scanned : Numeral.ofChars? (Text.trim Text.isBlank " 21474836470000000000e-10\n".toList)
        = some ⟨false, [2, 1, 4, 7, 4, 8, 3, 6, 4, 7, 0, 0, 0, 0, 0, 0, 0, 0, 0, 0], [], -10⟩ := by
      decide
    rw [Value.amount?, scanned]
    norm_num [Numeral.value, Numeral.coefficient, Numeral.scale, Text.ofDigits, signed]
  have form := (written 2147483647 (by decide) (by decide) stands).2 (by decide)
  exact ⟨stands, form, comes _ form⟩

/-- A decimal that is no whole number is written as one. -/
theorem fraction_is_lost :
    serialize (.decimal (.finite false 100000000000000000001 (-20)) 0) = .ok (.int 1)
      ∧ (Value.decimal (.finite false 100000000000000000001 (-20)) 0).amount?
        ≠ some (.finite 1) := by
  refine ⟨by rfl, ?_⟩
  intro same
  have same := Amount.finite.inj (Option.some.inj same)
  norm_num [signed] at same

end Int

end Leaf

end GraphQL
