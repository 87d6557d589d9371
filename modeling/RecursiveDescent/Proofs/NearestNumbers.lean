import Mathlib.Algebra.Order.Field.Power
import Mathlib.Tactic.FieldSimp
import Mathlib.Tactic.Linarith
import Mathlib.Tactic.Positivity
import Mathlib.Tactic.Ring
import RecursiveDescent.Decimal.Fixed

/-!
# Rounding to the nearest number

An amount is rounded to a whole number of units, and an amount half way between two of them to the
even one.  For binary64 the unit depends on the amount: it is the power of two by which the amount
has 53 bits in front of the point.  This file leaves the range of exponents aside.

Rounding is stated as a relation between amounts.  It keeps the order, it keeps the amounts that
are numbers, and it moves an amount by at most its `2 ^ 53`-th part.
-/

namespace RecursiveDescent

namespace Decimal

/-! ### Whole numbers -/

/-- The whole number is nearest to the amount, and even if another one is as near. -/
structure IsHalfEven (amount : ℚ) (whole : ℕ) : Prop where
  lower : whole - 1 / 2 ≤ amount
  upper : amount ≤ whole + 1 / 2
  even_of_below : amount = whole - 1 / 2 → whole % 2 = 0
  even_of_above : amount = whole + 1 / 2 → whole % 2 = 0

variable {amount other rounded roundedOther : ℚ} {whole wholeOther : ℕ}

theorem isHalfEven_natCast (whole : ℕ) : IsHalfEven whole whole := by
  constructor <;> intros <;> linarith

theorem IsHalfEven.mono (first : IsHalfEven amount whole) (second : IsHalfEven other wholeOther)
    (le : amount ≤ other) : whole ≤ wholeOther := by
  by_contra less
  have next : wholeOther + 1 ≤ whole := Nat.not_le.mp less
  have nextAmount : (wholeOther : ℚ) + 1 ≤ whole := mod_cast next
  -- Both amounts lie half way between the two whole numbers, which cannot both be even.
  have lower := first.lower
  have upper := second.upper
  have even := first.even_of_below (by linarith)
  have evenOther := second.even_of_above (by linarith)
  have same : (whole : ℚ) = wholeOther + 1 := by linarith
  have sameNumber : whole = wholeOther + 1 := mod_cast same
  omega

theorem IsHalfEven.abs_sub_le (isHalfEven : IsHalfEven amount whole) :
    |whole - amount| ≤ 1 / 2 := by
  have lower := isHalfEven.lower
  have upper := isHalfEven.upper
  rw [abs_le]
  constructor <;> linarith

theorem isHalfEven_below {below : ℕ} {rest : ℚ} (natural : 0 ≤ rest) (less : rest < 1 / 2) :
    IsHalfEven (below + rest) below := by
  constructor <;> intros <;> linarith

theorem isHalfEven_above {below : ℕ} {rest : ℚ} (greater : 1 / 2 < rest) (small : rest < 1) :
    IsHalfEven (below + rest) (below + 1 : ℕ) := by
  constructor <;> intros <;> push_cast at * <;> linarith

theorem isHalfEven_tie {below : ℕ} (even : whole % 2 = 0)
    (neighbour : whole = below ∨ whole = below + 1) : IsHalfEven (below + 1 / 2) whole := by
  rcases neighbour with rfl | rfl
  · exact ⟨by linarith, by linarith, fun _ => even, fun _ => even⟩
  · exact ⟨by push_cast; linarith, by push_cast; linarith, fun _ => even, fun _ => even⟩

theorem div_eq_natCast_add (numerator : ℕ) {denominator : ℕ} (positive : 0 < denominator) :
    (numerator : ℚ) / denominator =
      (numerator / denominator : ℕ) + (numerator % denominator : ℕ) / denominator := by
  have parts : (denominator * (numerator / denominator : ℕ) + (numerator % denominator : ℕ) : ℚ) =
      numerator :=
    mod_cast Nat.div_add_mod numerator denominator
  have scale : (denominator : ℚ) ≠ 0 := mod_cast positive.ne'
  rw [← parts]
  field_simp

section Fractions

variable {rest denominator : ℕ}

theorem fraction_lt_half_iff (positive : 0 < denominator) :
    (rest : ℚ) / denominator < 1 / 2 ↔ 2 * rest < denominator := by
  rw [div_lt_div_iff₀ (mod_cast positive) two_pos]
  norm_cast
  omega

theorem half_lt_fraction_iff (positive : 0 < denominator) :
    1 / 2 < (rest : ℚ) / denominator ↔ denominator < 2 * rest := by
  rw [div_lt_div_iff₀ two_pos (mod_cast positive)]
  norm_cast
  omega

theorem fraction_eq_half_iff (positive : 0 < denominator) :
    (rest : ℚ) / denominator = 1 / 2 ↔ 2 * rest = denominator := by
  rw [div_eq_div_iff (mod_cast positive.ne') two_ne_zero]
  norm_cast
  omega

theorem fraction_lt_one (small : rest < denominator) : (rest : ℚ) / denominator < 1 :=
  (div_lt_one (mod_cast (Nat.zero_le rest).trans_lt small)).mpr (mod_cast small)

end Fractions

theorem isHalfEven_roundedQuotient (numerator : ℕ) {denominator : ℕ} (positive : 0 < denominator) :
    IsHalfEven (numerator / denominator) (roundedQuotient numerator denominator) := by
  have small := Nat.mod_lt numerator positive
  rw [div_eq_natCast_add numerator positive, roundedQuotient]
  generalize numerator / denominator = below
  generalize numerator % denominator = rest at small ⊢
  rcases lt_trichotomy (2 * rest) denominator with less | half | greater
  · rw [if_pos less]
    exact isHalfEven_below (by positivity) ((fraction_lt_half_iff positive).mpr less)
  · rw [if_neg (by omega), if_neg (by omega), (fraction_eq_half_iff positive).mpr half]
    apply isHalfEven_tie <;> split <;> omega
  · rw [if_neg (by omega), if_pos greater]
    exact isHalfEven_above ((half_lt_fraction_iff positive).mpr greater) (fraction_lt_one small)

/-! ### Binary64 numbers -/

/-- The first amount is rounded to the second, a number of 53 bits in the same unit, or to the least
number in the unit above. -/
inductive IsNearest : ℚ → ℚ → Prop where
  | zero : IsNearest 0 0
  | positive {scaled : ℚ} {whole : ℕ} (exponent : ℤ) (low : 2 ^ 52 ≤ scaled)
      (high : scaled < 2 ^ 53) (isHalfEven : IsHalfEven scaled whole) :
      IsNearest (scaled * 2 ^ exponent) (whole * 2 ^ exponent)

theorem IsHalfEven.of_bits (isHalfEven : IsHalfEven amount whole) (low : 2 ^ 52 ≤ amount)
    (high : amount < 2 ^ 53) : 2 ^ 52 ≤ whole ∧ whole ≤ 2 ^ 53 := by
  have least := isHalfEven_natCast (2 ^ 52)
  have most := isHalfEven_natCast (2 ^ 53)
  exact ⟨least.mono isHalfEven (mod_cast low), isHalfEven.mono most (mod_cast high.le)⟩

theorem IsNearest.nonneg (isNearest : IsNearest amount rounded) : 0 ≤ rounded := by
  cases isNearest with
  | zero => rfl
  | positive exponent low high isHalfEven => positivity

/-- A higher unit is at least twice as large. -/
theorem scale_mul_le {exponent exponentOther : ℤ} (less : exponent < exponentOther) :
    (2 : ℚ) ^ 53 * 2 ^ exponent ≤ 2 ^ 52 * 2 ^ exponentOther := by
  calc (2 : ℚ) ^ 53 * 2 ^ exponent = 2 ^ 52 * 2 ^ (exponent + 1) := by
        rw [zpow_add_one₀ two_ne_zero]
        ring
    _ ≤ 2 ^ 52 * 2 ^ exponentOther := by
        have higher : (2 : ℚ) ^ (exponent + 1) ≤ 2 ^ exponentOther :=
          zpow_le_zpow_right₀ one_le_two less
        linarith

theorem IsNearest.mono (first : IsNearest amount rounded) (second : IsNearest other roundedOther)
    (le : amount ≤ other) : rounded ≤ roundedOther := by
  cases first with
  | zero => exact second.nonneg
  | @positive scaled whole exponent low high isHalfEven =>
      have unit : (0 : ℚ) < 2 ^ exponent := by positivity
      cases second with
      | zero =>
          have positive : 0 < scaled * 2 ^ exponent := mul_pos (by linarith) unit
          linarith
      | @positive scaledOther wholeOther exponentOther lowOther highOther isHalfEvenOther =>
          have unitOther : (0 : ℚ) < 2 ^ exponentOther := by positivity
          rcases lt_trichotomy exponent exponentOther with less | rfl | greater
          · have most : (whole : ℚ) ≤ 2 ^ 53 := mod_cast (isHalfEven.of_bits low high).2
            have least : 2 ^ 52 ≤ (wholeOther : ℚ) :=
              mod_cast (isHalfEvenOther.of_bits lowOther highOther).1
            calc (whole : ℚ) * 2 ^ exponent ≤ 2 ^ 53 * 2 ^ exponent := by gcongr
              _ ≤ 2 ^ 52 * 2 ^ exponentOther := scale_mul_le less
              _ ≤ wholeOther * 2 ^ exponentOther := by gcongr
          · have scaledLe : scaled ≤ scaledOther := le_of_mul_le_mul_right le unit
            have wholeLe : (whole : ℚ) ≤ wholeOther :=
              mod_cast isHalfEven.mono isHalfEvenOther scaledLe
            gcongr
          · -- The other amount would be the smaller one.
            have below : scaledOther * 2 ^ exponentOther < scaled * 2 ^ exponent :=
              calc scaledOther * 2 ^ exponentOther < 2 ^ 53 * 2 ^ exponentOther := by gcongr
                _ ≤ 2 ^ 52 * 2 ^ exponent := scale_mul_le greater
                _ ≤ scaled * 2 ^ exponent := by gcongr
            linarith

theorem IsNearest.abs_sub_le (isNearest : IsNearest amount rounded) :
    |rounded - amount| ≤ amount / 2 ^ 53 := by
  cases isNearest with
  | zero => simp
  | @positive scaled whole exponent low high isHalfEven =>
      have unit : (0 : ℚ) < 2 ^ exponent := by positivity
      calc |whole * 2 ^ exponent - scaled * 2 ^ exponent|
          = |whole - scaled| * 2 ^ exponent := by
            rw [← sub_mul, abs_mul, abs_of_pos unit]
        _ ≤ 1 / 2 * 2 ^ exponent := by
            have near := isHalfEven.abs_sub_le
            gcongr
        _ ≤ scaled / 2 ^ 53 * 2 ^ exponent := by
            have half : 1 / 2 ≤ scaled / 2 ^ 53 := by
              rw [le_div_iff₀ (by positivity)]
              linarith
            gcongr
        _ = scaled * 2 ^ exponent / 2 ^ 53 := by ring

theorem IsNearest.bounds (isNearest : IsNearest amount rounded) :
    amount * (1 - 1 / 2 ^ 53) ≤ rounded ∧ rounded ≤ amount * (1 + 1 / 2 ^ 53) := by
  have near := abs_le.mp isNearest.abs_sub_le
  constructor <;> linarith

/-- A quotient of two rounded amounts is moved by three roundings, its own being the third. -/
theorem abs_quotient_sub_le {divisor roundedDivisor quotient : ℚ} (natural : 0 ≤ amount)
    (positive : 0 < divisor) (isNearest : IsNearest amount rounded)
    (isNearestDivisor : IsNearest divisor roundedDivisor)
    (isNearestQuotient : IsNearest (rounded / roundedDivisor) quotient) :
    |quotient - amount / divisor| ≤ amount / divisor / 2 ^ 51 := by
  obtain ⟨ratio, rfl⟩ : ∃ ratio, amount = ratio * divisor :=
    ⟨amount / divisor, (div_mul_cancel₀ amount positive.ne').symm⟩
  have ratioNatural : 0 ≤ ratio := nonneg_of_mul_nonneg_left natural positive
  rw [mul_div_cancel_right₀ ratio positive.ne']
  have ⟨least, most⟩ := isNearest.bounds
  have ⟨leastDivisor, mostDivisor⟩ := isNearestDivisor.bounds
  have ⟨leastQuotient, mostQuotient⟩ := isNearestQuotient.bounds
  have roundedPositive : 0 < roundedDivisor := by linarith
  have leastProduct := mul_le_mul_of_nonneg_left leastDivisor ratioNatural
  have mostProduct := mul_le_mul_of_nonneg_left mostDivisor ratioNatural
  have below : ratio * (1 - 5 / 2 ^ 54) ≤ rounded / roundedDivisor := by
    rw [le_div_iff₀ roundedPositive]
    linarith
  have above : rounded / roundedDivisor ≤ ratio * (1 + 5 / 2 ^ 54) := by
    rw [div_le_iff₀ roundedPositive]
    linarith
  rw [abs_le]
  constructor <;> linarith

/-- A number is given 53 bits or more by zeros at its end. -/
theorem two_pow_le_scaled {number : ℕ} (notZero : number ≠ 0) :
    2 ^ 52 ≤ number * 2 ^ (52 - number.log2) :=
  calc 2 ^ 52 ≤ 2 ^ (number.log2 + (52 - number.log2)) :=
        Nat.pow_le_pow_right two_pos (by omega)
    _ = 2 ^ number.log2 * 2 ^ (52 - number.log2) := Nat.pow_add 2 _ _
    _ ≤ number * 2 ^ (52 - number.log2) := Nat.mul_le_mul_right _ (Nat.log2_self_le notZero)

theorem natCast_eq_scaled (number shift : ℕ) :
    (number : ℚ) = (number * 2 ^ shift : ℕ) * 2 ^ (-(shift : ℤ)) := by
  rw [zpow_neg, zpow_natCast]
  push_cast
  field_simp

/-- A whole number of at most 53 bits is a binary64 number. -/
theorem isNearest_natCast {number : ℕ} (bits : number < 2 ^ 53) : IsNearest number number := by
  by_cases absent : number = 0
  · subst absent
    simpa using IsNearest.zero
  · have inside : number.log2 < 53 := (Nat.log2_lt absent).mpr bits
    have high : number * 2 ^ (52 - number.log2) < 2 ^ 53 :=
      calc number * 2 ^ (52 - number.log2) < 2 ^ (number.log2 + 1) * 2 ^ (52 - number.log2) :=
            Nat.mul_lt_mul_of_pos_right Nat.lt_log2_self (Nat.two_pow_pos _)
        _ = 2 ^ 53 := by
            rw [← Nat.pow_add]
            congr 1
            omega
    rw [natCast_eq_scaled number (52 - number.log2)]
    exact .positive _ (mod_cast two_pow_le_scaled absent) (mod_cast high) (isHalfEven_natCast _)

end Decimal
end RecursiveDescent
