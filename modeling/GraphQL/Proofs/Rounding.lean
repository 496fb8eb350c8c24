import GraphQL.Number.Decimal
import GraphQL.Proofs.Amounts

/-!
How far conversion to floating point moves a number. A quotient goes to a number that is off by at
most half a unit in the last place, and whole numbers of up to 53 bits stay what they are, however
many digits they are written with.
-/

namespace GraphQL

open Amount

namespace Binary64

/-- A number that stands in for another, as far as 53 significant bits can say. -/
def Rounds (exact rounded : ℚ) : Prop :=
  |rounded - exact| ≤ max (|exact| / 2 ^ 53) (2 ^ (-1075 : ℤ))

theorem rounds_self (exact : ℚ) : Rounds exact exact := by
  rw [Rounds, sub_self, abs_zero]
  positivity

theorem rounds_signed (negative : Bool) {exact rounded : ℚ} (near : Rounds exact rounded) :
    Rounds (signed negative exact) (signed negative rounded) := by
  cases negative with
  | false => exact near
  | true =>
      unfold Rounds signed at *
      rwa [if_pos rfl, if_pos rfl, abs_neg, ← neg_sub', abs_neg]

theorem divideToEven_error (numerator : Nat) {denominator : Nat} (positive : 0 < denominator) :
    |(divideToEven numerator denominator : ℚ) - numerator / denominator| ≤ 1 / 2 := by
  have split := Nat.div_add_mod numerator denominator
  have below := Nat.mod_lt numerator positive
  have scale : (0 : ℚ) < denominator := by exact_mod_cast positive
  have split : (numerator : ℚ)
      = denominator * (numerator / denominator : Nat) + (numerator % denominator : Nat) := by
    exact_mod_cast split.symm
  generalize quotient_eq : numerator / denominator = quotient at split
  generalize rest_eq : numerator % denominator = rest at split below
  have whole : (numerator : ℚ) / denominator = quotient + rest / denominator := by
    rw [split]
    field_simp
  simp only [divideToEven, quotient_eq, rest_eq]
  rw [whole]
  have part : (rest : ℚ) / denominator * denominator = rest := by field_simp
  have nonneg : (0 : ℚ) ≤ rest / denominator := by positivity
  rw [abs_le]
  by_cases less : 2 * rest < denominator
  · have less' : (rest : ℚ) / denominator ≤ 1 / 2 := by
      rw [div_le_iff₀ scale]
      have : (2 : ℚ) * rest < denominator := by exact_mod_cast less
      linarith
    rw [if_pos less]
    constructor <;> linarith
  · have most : (rest : ℚ) / denominator ≤ 1 := by
      rw [div_le_one scale]
      exact_mod_cast below.le
    have half : (1 : ℚ) / 2 ≤ rest / denominator := by
      rw [le_div_iff₀ scale]
      have : (denominator : ℚ) ≤ 2 * rest := by exact_mod_cast Nat.not_lt.1 less
      linarith
    rw [if_neg less]
    by_cases more : denominator < 2 * rest
    · rw [if_pos more]
      push_cast
      constructor <;> linarith
    -- both neighbours are half a unit away
    · have tie : (rest : ℚ) / denominator = 1 / 2 := by
        rw [div_eq_iff scale.ne']
        have : 2 * rest = denominator := by omega
        have : (2 : ℚ) * rest = denominator := by exact_mod_cast this
        linarith
      have parity : quotient % 2 = 0 ∨ quotient % 2 = 1 := by omega
      rw [if_neg more, tie]
      rcases parity with even | odd
      · rw [even]
        push_cast
        constructor <;> linarith
      · rw [odd]
        push_cast
        constructor <;> linarith

theorem divideToEven_mul (n : Nat) {denominator : Nat} (positive : 0 < denominator) :
    divideToEven (n * denominator) denominator = n := by
  simp [divideToEven, positive]

theorem log2_bounds {n : Nat} (nonzero : n ≠ 0) :
    (2 : ℚ) ^ n.log2 ≤ n ∧ (n : ℚ) < 2 ^ (n.log2 + 1) := by
  have lower : 2 ^ n.log2 ≤ n := Nat.log2_self_le nonzero
  have upper : n < 2 ^ (n.log2 + 1) := Nat.lt_log2_self
  exact ⟨by exact_mod_cast lower, by exact_mod_cast upper⟩

/-- The order of a quotient is the place of its leading bit. -/
theorem binaryOrder_bounds {numerator denominator : Nat} (nonzero : numerator ≠ 0)
    (positive : 0 < denominator) :
    (2 : ℚ) ^ binaryOrder numerator denominator ≤ numerator / denominator
      ∧ (numerator : ℚ) / denominator < 2 ^ (binaryOrder numerator denominator + 1) := by
  have scale : (0 : ℚ) < denominator := by exact_mod_cast positive
  have upper := log2_bounds nonzero
  have lower := log2_bounds positive.ne'
  -- the comparison of whole numbers is that of the quotient with a power of two
  have reached : (if denominator.log2 ≤ numerator.log2 then
        denominator * Nat.pow 2 (numerator.log2 - denominator.log2) ≤ numerator
      else denominator ≤ numerator * Nat.pow 2 (denominator.log2 - numerator.log2))
      ↔ (2 : ℚ) ^ ((numerator.log2 : ℤ) - denominator.log2) ≤ numerator / denominator := by
    rw [le_div_iff₀ scale]
    split
    · next order =>
        rw [← Nat.cast_sub order, zpow_natCast, mul_comm, Nat.pow_eq]
        norm_cast
    · next order =>
        rw [← neg_sub, ← Nat.cast_sub (by omega), zpow_neg, zpow_natCast, Nat.pow_eq,
          inv_mul_le_iff₀ (by positivity), mul_comm]
        norm_cast
  have two : (2 : ℚ) ≠ 0 := by norm_num
  have above : (numerator : ℚ) / denominator
      < 2 ^ ((numerator.log2 : ℤ) - denominator.log2 + 1) := by
    have place : (numerator.log2 : ℤ) - denominator.log2 + 1
        = ((numerator.log2 + 1 : Nat) : ℤ) - denominator.log2 := by
      push_cast
      ring
    rw [place, zpow_sub₀ two, zpow_natCast, zpow_natCast]
    exact div_lt_div₀ upper.2 lower.1 (by positivity) (by positivity)
  have below : (2 : ℚ) ^ ((numerator.log2 : ℤ) - denominator.log2 - 1)
      ≤ numerator / denominator := by
    have place : (numerator.log2 : ℤ) - denominator.log2 - 1
        = (numerator.log2 : ℤ) - (denominator.log2 + 1 : Nat) := by
      push_cast
      ring
    rw [place, zpow_sub₀ two, zpow_natCast, zpow_natCast]
    exact div_le_div₀ (by positivity) upper.1 scale lower.2.le
  simp only [binaryOrder, reached]
  split
  · next here =>
      rw [sub_zero]
      exact ⟨here, above⟩
  · next short =>
      rw [sub_add_cancel]
      exact ⟨below, not_le.1 short⟩

/-- The power of two that a quotient is counted in. -/
def unit (numerator denominator : Nat) : Int :=
  max (binaryOrder numerator denominator - 52) minExponent

/-- The count of units that a quotient rounds to. -/
def units (numerator denominator : Nat) : Nat :=
  let exponent := unit numerator denominator
  if 0 ≤ exponent then divideToEven numerator (denominator * Nat.pow 2 exponent.toNat)
  else divideToEven (numerator * Nat.pow 2 (-exponent).toNat) denominator

theorem units_error (numerator : Nat) {denominator : Nat} (positive : 0 < denominator) :
    |(units numerator denominator : ℚ) * 2 ^ unit numerator denominator - numerator / denominator|
      ≤ 2 ^ unit numerator denominator / 2 := by
  have scale : (0 : ℚ) < denominator := by exact_mod_cast positive
  have size : (0 : ℚ) < 2 ^ unit numerator denominator := by positivity
  have count : |(units numerator denominator : ℚ)
      - numerator / denominator / 2 ^ unit numerator denominator| ≤ 1 / 2 := by
    unfold units
    generalize unit numerator denominator = exponent
    by_cases whole : 0 ≤ exponent
    · obtain ⟨power, rfl⟩ := Int.eq_ofNat_of_zero_le whole
      have error := divideToEven_error numerator
        (show 0 < denominator * 2 ^ power by positivity)
      push_cast at error
      rw [← div_div] at error
      simpa using error
    · obtain ⟨power, same⟩ := Int.eq_ofNat_of_zero_le (show 0 ≤ -exponent by omega)
      obtain rfl : exponent = -(power : Int) := by omega
      have nonzero : power ≠ 0 := by omega
      have error := divideToEven_error (numerator * 2 ^ power) positive
      have moved : ((numerator * 2 ^ power : Nat) : ℚ) / denominator
          = numerator / denominator / 2 ^ (-(power : ℤ)) := by
        rw [zpow_neg, zpow_natCast]
        push_cast
        field_simp
      rw [moved] at error
      simpa [nonzero] using error
  have product : (units numerator denominator : ℚ) * 2 ^ unit numerator denominator
        - numerator / denominator
      = (units numerator denominator
          - numerator / denominator / 2 ^ unit numerator denominator)
        * 2 ^ unit numerator denominator := by
    field_simp
  rw [product, abs_mul, abs_of_pos size]
  calc _ ≤ 1 / 2 * 2 ^ unit numerator denominator := mul_le_mul_of_nonneg_right count size.le
    _ = _ := by ring

theorem unit_le {numerator denominator : Nat} (nonzero : numerator ≠ 0)
    (positive : 0 < denominator) :
    (2 : ℚ) ^ unit numerator denominator / 2
      ≤ max ((numerator : ℚ) / denominator / 2 ^ 53) (2 ^ (-1075 : ℤ)) := by
  have two : (2 : ℚ) ≠ 0 := by norm_num
  rcases le_total minExponent (binaryOrder numerator denominator - 52) with normal | small
  · refine le_max_of_le_left ?_
    have bound := (binaryOrder_bounds nonzero positive).1
    rw [unit, max_eq_left normal, zpow_sub₀ two, div_div, le_div_iff₀ (by positivity)]
    calc _ = (2 : ℚ) ^ binaryOrder numerator denominator := by norm_num
      _ ≤ _ := bound
  · refine le_max_of_le_right ?_
    have half : (-1075 : ℤ) = minExponent - 1 := rfl
    rw [unit, max_eq_right small, half, zpow_sub₀ two, zpow_one]

/-- Carrying into a new leading bit changes the form of a number and not the number. -/
theorem amount?_ofRatio (negative : Bool) {numerator denominator : Nat}
    (nonzero : numerator ≠ 0) :
    (ofRatio negative numerator denominator).amount?
      = if maxExponent < unit numerator denominator
            + (if units numerator denominator = precision then 1 else 0) then
          some (.infinite negative)
        else
          some (.finite
            (signed negative (units numerator denominator * 2 ^ unit numerator denominator))) := by
  have two : (2 : ℚ) ≠ 0 := by norm_num
  have unfolded : ofRatio negative numerator denominator
      = if units numerator denominator = precision then
          if maxExponent < unit numerator denominator + 1 then .infinite negative
          else .finite negative (precision / 2) (unit numerator denominator + 1)
        else if maxExponent < unit numerator denominator then .infinite negative
        else .finite negative (units numerator denominator) (unit numerator denominator) := by
    rw [ofRatio, if_neg nonzero]
    let scaled : Nat × Int := if units numerator denominator = precision
      then (precision / 2, unit numerator denominator + 1)
      else (units numerator denominator, unit numerator denominator)
    change (if maxExponent < scaled.2 then Binary64.infinite negative
      else .finite negative scaled.1 scaled.2) = _
    unfold scaled
    by_cases full : units numerator denominator = precision
    · rw [if_pos full, if_pos full]
    · rw [if_neg full, if_neg full]
  rw [unfolded]
  by_cases full : units numerator denominator = precision
  · rw [if_pos full, if_pos full]
    split
    · rfl
    · have carried : ((precision / 2 : Nat) : ℚ) * 2 ^ (unit numerator denominator + 1)
          = (precision : ℚ) * 2 ^ unit numerator denominator := by
        rw [zpow_add₀ two]
        simp only [precision]
        norm_num
        ring
      rw [amount?, carried, full]
  · rw [if_neg full, if_neg full, add_zero]
    split <;> rfl

theorem rounds_ofRatio {negative : Bool} {numerator denominator : Nat} {rounded : ℚ}
    (nonzero : numerator ≠ 0) (positive : 0 < denominator)
    (found : (ofRatio negative numerator denominator).amount? = some (.finite rounded)) :
    Rounds (signed negative (numerator / denominator)) rounded := by
  rw [amount?_ofRatio negative nonzero] at found
  by_cases beyond : maxExponent < unit numerator denominator
      + (if units numerator denominator = precision then 1 else 0)
  · rw [if_pos beyond] at found
    cases found
  · rw [if_neg beyond] at found
    rw [← Amount.finite.inj (Option.some.inj found)]
    refine rounds_signed negative ((units_error numerator positive).trans ?_)
    rw [abs_of_nonneg (by positivity)]
    exact unit_le nonzero positive

theorem unit_bounds {n denominator : Nat} (nonzero : n ≠ 0) (small : n < 2 ^ 53)
    (positive : 0 < denominator) :
    -52 ≤ unit (n * denominator) denominator ∧ unit (n * denominator) denominator ≤ 0 := by
  have one : (1 : ℚ) < 2 := by norm_num
  have scale : (denominator : ℚ) ≠ 0 := by positivity
  obtain ⟨lower, upper⟩ := binaryOrder_bounds (mul_ne_zero nonzero positive.ne') positive
  rw [Nat.cast_mul, mul_div_cancel_right₀ _ scale] at lower upper
  have least : (1 : ℚ) ≤ n := by exact_mod_cast Nat.pos_of_ne_zero nonzero
  have most : (n : ℚ) < 2 ^ (53 : ℤ) := by exact_mod_cast small
  have first : (2 : ℚ) ^ (0 : ℤ) < 2 ^ (binaryOrder (n * denominator) denominator + 1) := by
    rw [zpow_zero]
    exact least.trans_lt upper
  have last := (zpow_lt_zpow_iff_right₀ one).1 (lower.trans_lt most)
  have first := (zpow_lt_zpow_iff_right₀ one).1 first
  rw [unit, minExponent]
  omega

theorem amount?_ofRatio_whole (negative : Bool) {n denominator : Nat} (nonzero : n ≠ 0)
    (small : n < 2 ^ 53) (positive : 0 < denominator) :
    (ofRatio negative (n * denominator) denominator).amount?
      = some (.finite (signed negative n)) := by
  obtain ⟨least, most⟩ := unit_bounds nonzero small positive
  have exact : (units (n * denominator) denominator : ℚ) * 2 ^ unit (n * denominator) denominator
      = n := by
    unfold units
    generalize unit (n * denominator) denominator = exponent at most
    obtain ⟨power, same⟩ := Int.eq_ofNat_of_zero_le (show 0 ≤ -exponent by omega)
    obtain rfl : exponent = -(power : Int) := by omega
    have moved : n * denominator * 2 ^ power = n * 2 ^ power * denominator := by ring
    by_cases here : power = 0
    · simp [here, divideToEven_mul n positive]
    · simp [here, moved, divideToEven_mul (n * 2 ^ power) positive]
  rw [amount?_ofRatio negative (mul_ne_zero nonzero positive.ne'), exact, if_neg]
  rw [maxExponent]
  split <;> omega

theorem ofScientific_of_nonzero (negative : Bool) {coefficient : Nat} (nonzero : coefficient ≠ 0)
    (exponent : Int) :
    ofScientific negative coefficient exponent
      = if 309 < Decimal.adjusted coefficient exponent then .infinite negative
        else if Decimal.adjusted coefficient exponent < -331 then zero negative
        else ofRatio negative (coefficient * 10 ^ exponent.toNat) (10 ^ (-exponent).toNat) := by
  have order : exponent + (Nat.toDigits 10 coefficient).length
      = Decimal.adjusted coefficient exponent + 1 := by
    unfold Decimal.adjusted Decimal.digits
    omega
  have far : 310 < Decimal.adjusted coefficient exponent + 1
      ↔ 309 < Decimal.adjusted coefficient exponent := by omega
  have near : Decimal.adjusted coefficient exponent + 1 < -330
      ↔ Decimal.adjusted coefficient exponent < -331 := by omega
  simp only [ofScientific, order, nonzero, if_false, far, near, Nat.pow_eq]
  by_cases whole : 0 ≤ exponent
  · have none : (-exponent).toNat = 0 := by omega
    rw [if_pos whole, none, pow_zero]
  · have none : exponent.toNat = 0 := by omega
    rw [if_neg whole, none, pow_zero, mul_one]

theorem scientific_eq_quotient (coefficient : Nat) (exponent : Int) :
    ((coefficient * 10 ^ exponent.toNat : Nat) : ℚ) / (10 ^ (-exponent).toNat : Nat)
      = coefficient * 10 ^ exponent := by
  by_cases whole : 0 ≤ exponent
  · obtain ⟨power, rfl⟩ := Int.eq_ofNat_of_zero_le whole
    simp
  · obtain ⟨power, same⟩ := Int.eq_ofNat_of_zero_le (show 0 ≤ -exponent by omega)
    obtain rfl : exponent = -(power : Int) := by omega
    simp [div_eq_mul_inv]

theorem below_least : (10 : ℚ) ^ (-331 : ℤ) ≤ 2 ^ (-1075 : ℤ) := by
  have powers : (2 : ℚ) ^ 1075 ≤ 10 ^ 331 :=
    calc (2 : ℚ) ^ 1075 = (2 ^ 43) ^ 25 := by rw [← pow_mul]
      _ ≤ (10 ^ 13) ^ 25 := pow_le_pow_left₀ (by norm_num) (by norm_num) 25
      _ = 10 ^ 325 := by rw [← pow_mul]
      _ ≤ 10 ^ 331 := pow_le_pow_right₀ (by norm_num) (by norm_num)
  rw [zpow_neg, zpow_neg]
  exact inv_anti₀ (by positivity) (by exact_mod_cast powers)

/-- A numeral goes to a number that is off by at most half a unit in the last place. -/
theorem rounds_ofScientific {negative : Bool} {coefficient : Nat} {exponent : Int} {rounded : ℚ}
    (found : (ofScientific negative coefficient exponent).amount? = some (.finite rounded)) :
    Rounds (signed negative (coefficient * 10 ^ exponent)) rounded := by
  by_cases nonzero : coefficient = 0
  · have same : rounded = signed negative (coefficient * 10 ^ exponent) := by
      simpa [ofScientific, nonzero, zero, amount?, eq_comm] using found
    rw [same]
    exact rounds_self _
  · rw [ofScientific_of_nonzero negative nonzero] at found
    split at found
    · cases found
    · split at found
      · next small =>
          have none : rounded = signed negative 0 := by
            simpa [zero, amount?, eq_comm] using found
          have bound := (Decimal.adjusted_bounds nonzero exponent).2
          have tiny : (10 : ℚ) ^ (Decimal.adjusted coefficient exponent + 1) ≤ 10 ^ (-331 : ℤ) :=
            zpow_le_zpow_right₀ (by norm_num) (by omega)
          rw [none]
          refine rounds_signed negative ?_
          rw [Rounds, zero_sub, abs_neg, abs_of_nonneg (by positivity)]
          exact le_max_of_le_right (bound.le.trans (tiny.trans below_least))
      · rw [← scientific_eq_quotient]
        exact rounds_ofRatio (by positivity) (by positivity) found

/-- A numeral for a whole number of up to 53 bits loses nothing, whatever digits it is written
with. -/
theorem amount?_ofScientific_whole {negative : Bool} {coefficient n : Nat} {exponent : Int}
    (small : n < 2 ^ 53) (exact : (coefficient : ℚ) * 10 ^ exponent = n) :
    (ofScientific negative coefficient exponent).amount?
      = some (.finite (signed negative n)) := by
  by_cases none : coefficient = 0
  · have zero_ : n = 0 := by
      rw [none, Nat.cast_zero, zero_mul] at exact
      exact_mod_cast exact.symm
    simp [ofScientific, none, zero, amount?, zero_]
  · have nonzero : n ≠ 0 := by
      rintro rfl
      exact none ((Decimal.scaled_eq_zero_iff coefficient exponent).1 (by exact_mod_cast exact))
    have ten : (1 : ℚ) < 10 := by norm_num
    obtain ⟨lower, upper⟩ := Decimal.adjusted_bounds none exponent
    rw [exact] at lower upper
    have least : (10 : ℚ) ^ (0 : ℤ) ≤ n := by
      rw [zpow_zero]
      exact_mod_cast Nat.pos_of_ne_zero nonzero
    have most : (n : ℚ) < 10 ^ (16 : ℤ) := by
      have : n < 10 ^ 16 := small.trans (by norm_num)
      exact_mod_cast this
    have first := (zpow_lt_zpow_iff_right₀ ten).1 (least.trans_lt upper)
    have last := (zpow_lt_zpow_iff_right₀ ten).1 (lower.trans_lt most)
    have product : coefficient * 10 ^ exponent.toNat = n * 10 ^ (-exponent).toNat := by
      have quotient := scientific_eq_quotient coefficient exponent
      rw [exact, div_eq_iff (by positivity)] at quotient
      exact_mod_cast quotient
    rw [ofScientific_of_nonzero negative none, if_neg (by omega), if_neg (by omega), product]
    exact amount?_ofRatio_whole negative nonzero small (by positivity)

end Binary64

end GraphQL
