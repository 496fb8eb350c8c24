import GraphQL.Value.Equality
import Mathlib.Algebra.Order.Field.Power
import Mathlib.Data.Rat.Cast.Order
import Mathlib.Tactic.FieldSimp
import Mathlib.Tactic.Linarith
import Mathlib.Tactic.NormNum
import Mathlib.Tactic.Positivity
import Mathlib.Tactic.Ring

/-!
What numbers amount to. Integers, floating point numbers and decimals stand for rational numbers or
for one of the infinities, and two of them are equal just when they stand for the same.
-/

namespace GraphQL

inductive Amount where
  | finite (value : ℚ)
  | infinite (negative : Bool)

namespace Amount

def signed (negative : Bool) (size : ℚ) : ℚ := if negative then -size else size

theorem abs_signed (negative : Bool) {size : ℚ} (nonneg : 0 ≤ size) :
    |signed negative size| = size := by
  cases negative with
  | false => exact abs_of_nonneg nonneg
  | true => exact (abs_neg size).trans (abs_of_nonneg nonneg)

theorem signed_eq_zero_iff (negative : Bool) (size : ℚ) : signed negative size = 0 ↔ size = 0 := by
  cases negative <;> simp [signed]

theorem signed_inj {negative other : Bool} {size size' : ℚ} (positive : 0 < size)
    (positive' : 0 < size') :
    signed negative size = signed other size' ↔ negative = other ∧ size = size' := by
  cases negative <;> cases other <;> simp [signed] <;> intro same <;> linarith

end Amount

open Amount

namespace Binary64

def amount? : Binary64 → Option Amount
  | .nan => none
  | .infinite negative => some (.infinite negative)
  | .finite negative significand exponent =>
    some (.finite (signed negative (significand * 2 ^ exponent)))

theorem fraction?_finite (negative : Bool) (significand : Nat) (exponent : Int) :
    ∃ (numerator : Int) (denominator : Nat),
      fraction? (.finite negative significand exponent) = some (numerator, denominator)
        ∧ 0 < denominator
        ∧ (numerator : ℚ) = signed negative (significand * 2 ^ exponent) * denominator := by
  by_cases whole : 0 ≤ exponent
  · obtain ⟨power, rfl⟩ := Int.eq_ofNat_of_zero_le whole
    refine ⟨_, _, rfl, ?_, ?_⟩
    · simp
    · cases negative <;> simp [signed]
  · obtain ⟨power, same⟩ := Int.eq_ofNat_of_zero_le (show 0 ≤ -exponent by omega)
    obtain rfl : exponent = -(power : Int) := by omega
    have nonzero : power ≠ 0 := by omega
    refine ⟨_, _, rfl, ?_, ?_⟩
    · simp [nonzero]
    · cases negative <;> simp [signed, nonzero]

theorem equals_iff (left right : Binary64) :
    left.equals right = true
      ↔ ∃ amount, left.amount? = some amount ∧ right.amount? = some amount := by
  cases left with
  | nan => simp [equals, amount?]
  | infinite negative => cases right <;> simp [equals, amount?, eq_comm]
  | finite negative significand exponent =>
      cases right with
      | nan => simp [equals, amount?]
      | infinite negative => simp [equals, amount?]
      | finite negative' significand' exponent' =>
          obtain ⟨a, d, read, positive, exact⟩ := fraction?_finite negative significand exponent
          obtain ⟨b, d', read', positive', exact'⟩ :=
            fraction?_finite negative' significand' exponent'
          have nonzero : (d : ℚ) ≠ 0 := by positivity
          have nonzero' : (d' : ℚ) ≠ 0 := by positivity
          have scaled : a * (d' : Int) = b * (d : Int) ↔ (a : ℚ) * d' = b * d := by
            norm_cast
          simp only [equals, read, read', decide_eq_true_eq, amount?, Option.some.injEq]
          rw [scaled, exact, exact']
          constructor
          · intro same
            refine ⟨_, rfl, congrArg _ (mul_right_cancel₀ (mul_ne_zero nonzero nonzero') ?_)⟩
            linarith
          · rintro ⟨_, rfl, same⟩
            rw [Amount.finite.injEq] at same
            rw [same]
            ring

theorem toInt?_eq_some_iff (x : Binary64) (n : Int) :
    x.toInt? = some n ↔ x.amount? = some (.finite n) := by
  cases x with
  | nan => simp [toInt?, fraction?, amount?]
  | infinite negative => simp [toInt?, fraction?, amount?]
  | finite negative significand exponent =>
      obtain ⟨a, d, read, positive, exact⟩ := fraction?_finite negative significand exponent
      have nonzero : (d : ℚ) ≠ 0 := by positivity
      have whole : (a : ℚ) = n * d ↔ a = n * (d : Int) := by norm_cast
      simp only [toInt?, read, Option.bind_some, amount?, Option.some.injEq, Amount.finite.injEq]
      rw [← mul_left_inj' nonzero, ← exact, whole]
      constructor
      · intro found
        split at found
        · next divides =>
            rw [← Option.some.inj found]
            exact (Int.ediv_mul_cancel (Int.dvd_of_emod_eq_zero divides)).symm
        · cases found
      · intro product
        rw [product, Int.mul_emod_left, if_pos rfl, Int.mul_ediv_cancel]
        omega

theorem equalsInt_iff (x : Binary64) (n : Int) :
    x.equalsInt n = true ↔ x.amount? = some (.finite n) := by
  rw [equalsInt, decide_eq_true_eq, toInt?_eq_some_iff]

end Binary64

namespace Decimal

def amount? : Decimal → Option Amount
  | .nan .. => none
  | .infinite negative => some (.infinite negative)
  | .finite negative coefficient exponent =>
    some (.finite (signed negative (coefficient * 10 ^ exponent)))

theorem digits_bounds {n : Nat} (nonzero : n ≠ 0) :
    10 ^ ((digits n).length - 1) ≤ n ∧ n < 10 ^ (digits n).length := by
  have positive : 0 < (digits n).length := Nat.length_toDigits_pos
  refine ⟨?_, (Nat.length_toDigits_le_iff (by norm_num) positive).1 le_rfl⟩
  by_cases one : (digits n).length = 1
  · rw [one]
    exact Nat.pos_of_ne_zero nonzero
  · by_contra below
    have := (Nat.length_toDigits_le_iff (b := 10) (n := n) (k := (digits n).length - 1)
      (by norm_num) (by omega)).2 (Nat.lt_of_not_le below)
    change (digits n).length ≤ _ at this
    omega

/-- The leading digit of a number stands where its size says. -/
theorem adjusted_bounds {coefficient : Nat} (nonzero : coefficient ≠ 0) (exponent : Int) :
    (10 : ℚ) ^ adjusted coefficient exponent ≤ coefficient * 10 ^ exponent
      ∧ coefficient * 10 ^ exponent < (10 : ℚ) ^ (adjusted coefficient exponent + 1) := by
  obtain ⟨lower, upper⟩ := digits_bounds nonzero
  have positive : 0 < (digits coefficient).length := Nat.length_toDigits_pos
  have scale : (0 : ℚ) < 10 ^ exponent := by positivity
  have low : (10 : ℚ) ^ ((digits coefficient).length - 1) ≤ coefficient := by exact_mod_cast lower
  have high : (coefficient : ℚ) < 10 ^ (digits coefficient).length := by exact_mod_cast upper
  constructor
  · have place : adjusted coefficient exponent
        = (((digits coefficient).length - 1 : Nat) : Int) + exponent := by
      unfold adjusted
      omega
    rw [place, zpow_add₀ (by norm_num), zpow_natCast]
    exact mul_le_mul_of_nonneg_right low scale.le
  · have place : adjusted coefficient exponent + 1
        = ((digits coefficient).length : Int) + exponent := by
      unfold adjusted
      omega
    rw [place, zpow_add₀ (by norm_num), zpow_natCast]
    exact mul_lt_mul_of_pos_right high scale

/-- Numbers of one size have their leading digits in one place. -/
theorem adjusted_eq {c c' : Nat} {e e' : Int} (nonzero : c ≠ 0) (nonzero' : c' ≠ 0)
    (same : (c : ℚ) * 10 ^ e = c' * 10 ^ e') : adjusted c e = adjusted c' e' := by
  have bounds := adjusted_bounds nonzero e
  have bounds' := adjusted_bounds nonzero' e'
  rw [← same] at bounds'
  have below := (zpow_lt_zpow_iff_right₀ (by norm_num)).1 (bounds.1.trans_lt bounds'.2)
  have above := (zpow_lt_zpow_iff_right₀ (by norm_num)).1 (bounds'.1.trans_lt bounds.2)
  omega

theorem scaled_eq_iff {c c' : Nat} {e e' : Int} (order : e ≤ e') :
    c = c' * 10 ^ (e' - e).toNat ↔ (c : ℚ) * 10 ^ e = c' * 10 ^ e' := by
  obtain ⟨power, same⟩ := Int.eq_ofNat_of_zero_le (show 0 ≤ e' - e by omega)
  obtain rfl : e' = power + e := by omega
  have scale : (10 : ℚ) ^ e ≠ 0 := by positivity
  have unscaled : c = c' * 10 ^ power ↔ (c : ℚ) = c' * 10 ^ power := by norm_cast
  rw [same, Int.toNat_natCast, zpow_add₀ (by norm_num), zpow_natCast, ← mul_assoc,
    mul_left_inj' scale, unscaled]

theorem scaled_eq_zero_iff (coefficient : Nat) (exponent : Int) :
    (coefficient : ℚ) * 10 ^ exponent = 0 ↔ coefficient = 0 := by
  have scale : (10 : ℚ) ^ exponent ≠ 0 := by positivity
  simp [scale]

theorem equals_finite_iff (n n' : Bool) (c c' : Nat) (e e' : Int) :
    (finite n c e).equals (finite n' c' e') = true
      ↔ signed n (c * 10 ^ e) = signed n' (c' * 10 ^ e') := by
  have absent (negative : Bool) (size : Nat) (exponent : Int) :
      signed negative (size * 10 ^ exponent) = 0 ↔ size = 0 :=
    (signed_eq_zero_iff _ _).trans (scaled_eq_zero_iff size exponent)
  by_cases zero : c = 0 ∨ c' = 0
  · simp only [equals, zero, if_true, decide_eq_true_eq]
    constructor
    · intro same
      have both : c = 0 ∧ c' = 0 := by omega
      rw [(absent n c e).2 both.1, (absent n' c' e').2 both.2]
    · intro same
      rcases zero with none | none
      · rw [none, (absent n' c' e').1 (same.symm.trans ((absent n c e).2 none))]
      · rw [none, (absent n c e).1 (same.trans ((absent n' c' e').2 none))]
  · rw [not_or] at zero
    have positive (size : Nat) (nonzero : size ≠ 0) (exponent : Int) :
        (0 : ℚ) < size * 10 ^ exponent := by positivity
    rw [signed_inj (positive c zero.1 e) (positive c' zero.2 e')]
    simp only [equals, zero, or_self, if_false]
    by_cases apart : n ≠ n' ∨ adjusted c e ≠ adjusted c' e'
    · rw [if_pos apart]
      simp only [Bool.false_eq_true, false_iff]
      rintro ⟨rfl, same⟩
      rcases apart with apart | apart
      · exact apart rfl
      · exact apart (adjusted_eq zero.1 zero.2 same)
    · rw [if_neg apart]
      have sign : n = n' := by
        by_contra differs
        exact apart (.inl differs)
      by_cases order : e ≤ e'
      · rw [if_pos order, decide_eq_true_eq, Nat.pow_eq, scaled_eq_iff order]
        exact (and_iff_right sign).symm
      · rw [if_neg order, decide_eq_true_eq, Nat.pow_eq, eq_comm, scaled_eq_iff (by omega),
          eq_comm]
        exact (and_iff_right sign).symm

theorem equals_iff (left right : Decimal) :
    left.equals right = true
      ↔ ∃ amount, left.amount? = some amount ∧ right.amount? = some amount := by
  cases left with
  | nan => simp [equals, amount?]
  | infinite negative => cases right <;> simp [equals, amount?, eq_comm]
  | finite negative coefficient exponent =>
      cases right with
      | nan => simp [equals, amount?]
      | infinite negative => simp [equals, amount?]
      | finite negative' coefficient' exponent' =>
          rw [equals_finite_iff]
          simp [amount?, eq_comm]

theorem amount?_ofInt (n : Int) : (ofInt n).amount? = some (.finite n) := by
  have size : signed (decide (n < 0)) |(n : ℚ)| = n := by
    by_cases negative : n < 0
    · have below : (n : ℚ) < 0 := by exact_mod_cast negative
      simp [signed, negative, abs_of_neg below]
    · have above : (0 : ℚ) ≤ n := by exact_mod_cast Int.not_lt.1 negative
      simp [signed, negative, abs_of_nonneg above]
  simp [ofInt, amount?, size]

/-- Stripping factors of two changes neither the quotient nor whether it is zero. -/
theorem reduceTwos_spec (significand power : Nat) :
    (reduceTwos significand power).1 * 2 ^ power
      = significand * 2 ^ (reduceTwos significand power).2 := by
  induction power generalizing significand with
  | zero => simp [reduceTwos]
  | succ power ih =>
      rw [reduceTwos]
      split
      · next even =>
          have halved := ih (significand / 2)
          generalize reduceTwos (significand / 2) power = reduced at halved ⊢
          obtain ⟨half, rfl⟩ : ∃ half, significand = 2 * half := ⟨significand / 2, by omega⟩
          rw [Nat.mul_div_cancel_left half (by norm_num)] at halved
          rw [pow_succ, ← mul_assoc, halved]
          ring
      · rfl

theorem amount?_ofBinary64 (x : Binary64) : (ofBinary64 x).amount? = x.amount? := by
  cases x with
  | nan => rfl
  | infinite negative => rfl
  | finite negative significand exponent =>
      simp only [ofBinary64]
      by_cases whole : 0 ≤ exponent
      · obtain ⟨power, rfl⟩ := Int.eq_ofNat_of_zero_le whole
        simp [amount?, Binary64.amount?]
      · rw [if_neg whole]
        obtain ⟨power, same⟩ := Int.eq_ofNat_of_zero_le (show 0 ≤ -exponent by omega)
        obtain rfl : exponent = -(power : Int) := by omega
        by_cases zero : significand = 0
        · simp [zero, amount?, Binary64.amount?]
        · have spec := reduceTwos_spec significand power
          simp only [zero, if_false, neg_neg, Int.toNat_natCast, amount?, Binary64.amount?,
            Option.some.injEq, Amount.finite.injEq]
          generalize reduceTwos significand power = reduced at spec
          obtain ⟨size, left⟩ := reduced
          have spec : (size : ℚ) * 2 ^ power = significand * 2 ^ left := by exact_mod_cast spec
          have ten : (10 : ℚ) ^ left = 2 ^ left * 5 ^ left := by rw [← mul_pow]; norm_num
          congr 1
          push_cast
          rw [Nat.pow_eq, zpow_neg, zpow_neg, zpow_natCast, zpow_natCast, ten]
          push_cast
          field_simp
          linarith

end Decimal

namespace Value.Numeric

def amount? : Numeric → Option Amount
  | .int n => some (.finite n)
  | .float x => x.amount?
  | .decimal d => d.amount?

/-- Numbers of all kinds are equal when they stand for the same. -/
theorem equals_iff (left right : Numeric) :
    left.equals right = true
      ↔ ∃ amount, left.amount? = some amount ∧ right.amount? = some amount := by
  cases left with
  | int n =>
      cases right with
      | int n' => simp [equals, amount?, eq_comm]
      | float x => simp [equals, amount?, Binary64.equalsInt_iff]
      | decimal d => simp [equals, amount?, Decimal.equals_iff, Decimal.amount?_ofInt]
  | float x =>
      cases right with
      | int n => simp [equals, amount?, Binary64.equalsInt_iff]
      | float x' => simp [equals, amount?, Binary64.equals_iff]
      | decimal d => simp [equals, amount?, Decimal.equals_iff, Decimal.amount?_ofBinary64]
  | decimal d =>
      cases right with
      | int n => simp [equals, amount?, Decimal.equals_iff, Decimal.amount?_ofInt]
      | float x => simp [equals, amount?, Decimal.equals_iff, Decimal.amount?_ofBinary64]
      | decimal d' => simp [equals, amount?, Decimal.equals_iff]

end Value.Numeric

end GraphQL
