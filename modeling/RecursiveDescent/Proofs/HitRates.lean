import RecursiveDescent.Proofs.FloatAmounts
import RecursiveDescent.Statistics

/-!
# Hit rates

The hit rate is the number of hits divided by the number of invocations, which is added up in 64
bits.  When the sum fits, the rate is the fraction of the invocations that its name promises, and
the text shows it as a percentage.  When it does not fit, the addition overflows, and there is
neither a rate nor a text, although the fraction exists.

The float that is returned differs from the fraction by three roundings, and the text by two more.
Both are compared with the fraction here, for all counts.
-/

namespace RecursiveDescent

namespace Statistics

open Decimal

variable (statistics : Statistics)

/-! ### The fraction of the invocations -/

/-- The hits as a fraction of the invocations, whether or not their number fits into a word. -/
def fraction : ℚ :=
  statistics.hits.toNat / (statistics.hits.toNat + statistics.misses.toNat)

theorem fraction_nonneg : 0 ≤ statistics.fraction := by
  rw [fraction]
  positivity

theorem fraction_le_one : statistics.fraction ≤ 1 := by
  rw [fraction]
  exact div_le_one_of_le₀ (by simp) (by positivity)

theorem fraction_eq_zero_iff : statistics.fraction = 0 ↔ statistics.hits = 0 := by
  rw [fraction, ← UInt64.toNat_inj, UInt64.toNat_zero, div_eq_zero_iff]
  norm_cast
  omega

variable {statistics}

theorem fraction_mono {hits : UInt64} (le : hits ≤ statistics.hits) :
    fraction { statistics with hits } ≤ statistics.fraction := by
  have leNumber : hits.toNat ≤ statistics.hits.toNat := UInt64.le_iff_toNat_le.mp le
  rw [fraction, fraction]
  rcases hits.toNat.eq_zero_or_pos with none | positive
  · rw [none, Nat.cast_zero, zero_div]
    positivity
  · rw [div_le_div_iff₀ (by positivity) (by norm_cast; omega)]
    norm_cast
    rw [Nat.mul_add, Nat.mul_add, Nat.mul_comm hits.toNat]
    gcongr

theorem fraction_anti {misses : UInt64} (le : misses ≤ statistics.misses) :
    statistics.fraction ≤ fraction { statistics with misses } := by
  have leNumber : misses.toNat ≤ statistics.misses.toNat := UInt64.le_iff_toNat_le.mp le
  rw [fraction, fraction]
  rcases statistics.hits.toNat.eq_zero_or_pos with none | positive
  · rw [none, Nat.cast_zero, zero_div, zero_div]
  · gcongr

/-! ### The rate without rounding -/

variable (statistics)

/-- The hit rate without any rounding, for the total that is calculated. -/
def exactRate : Option ℚ :=
  statistics.total.map fun total =>
    if 0 < total then statistics.hits.toNat / total.toNat else 0

/-- The number of invocations fits into 64 bits. -/
def Fits : Prop :=
  statistics.hits.toNat + statistics.misses.toNat < 2 ^ 64

variable {statistics}

theorem Fits.of_le {other : Statistics} (fits : statistics.Fits)
    (hits : other.hits ≤ statistics.hits) (misses : other.misses ≤ statistics.misses) :
    other.Fits := by
  rw [UInt64.le_iff_toNat_le] at hits misses
  unfold Fits at fits ⊢
  omega

theorem Fits.exists_total (fits : statistics.Fits) : ∃ total, statistics.total = some total ∧
    total.toNat = statistics.hits.toNat + statistics.misses.toNat := by
  refine ⟨statistics.hits + statistics.misses, if_pos fits, ?_⟩
  rw [UInt64.toNat_add, Nat.mod_eq_of_lt fits]

theorem total_of_not_fits (overflow : ¬statistics.Fits) : statistics.total = none :=
  if_neg overflow

theorem toNat_eq_zero_of_not_pos {total : UInt64} (empty : ¬0 < total) : total.toNat = 0 := by
  rw [UInt64.lt_iff_toNat_lt] at empty
  simpa using empty

theorem Fits.exactRate_eq (fits : statistics.Fits) :
    statistics.exactRate = some statistics.fraction := by
  obtain ⟨total, added, sum⟩ := fits.exists_total
  rw [exactRate, added, Option.map_some, fraction, ← Nat.cast_add, ← sum]
  split
  case isTrue => rfl
  case isFalse empty => rw [toNat_eq_zero_of_not_pos empty, Nat.cast_zero, div_zero]

/-! ### The rate that is returned -/

/-- The fraction is far from the least number. -/
theorem Fits.le_fraction (fits : statistics.Fits) :
    statistics.fraction = 0 ∨ 1 / 2 ^ 64 ≤ statistics.fraction := by
  rcases statistics.hits.toNat.eq_zero_or_pos with none | someHits
  · left
    rw [fraction, none, Nat.cast_zero, zero_div]
  · right
    rw [fraction, div_le_div_iff₀ (by positivity) (by positivity)]
    unfold Fits at fits
    norm_cast
    omega

theorem bounds_of_isNearest {count : UInt64} {rounded : ℚ} (positive : 0 < count.toNat)
    (isNearest : IsNearest count.toNat rounded) : 1 / 2 ≤ rounded ∧ rounded ≤ 2 ^ 65 := by
  have least : (1 : ℚ) ≤ count.toNat := mod_cast positive
  have greatest : (count.toNat : ℚ) ≤ 2 ^ 64 := mod_cast count.toNat_lt.le
  have bounds := isNearest.bounds
  constructor <;> linarith

theorem quotient_moderate {count total : UInt64} {rounded roundedTotal : ℚ}
    (isNearest : IsNearest count.toNat rounded) (positive : 0 < total.toNat)
    (isNearestTotal : IsNearest total.toNat roundedTotal) :
    rounded / roundedTotal = 0 ∨ IsModerate (rounded / roundedTotal) := by
  have ⟨leastTotal, mostTotal⟩ := bounds_of_isNearest positive isNearestTotal
  rcases count.toNat.eq_zero_or_pos with none | counted
  · left
    rw [none, Nat.cast_zero] at isNearest
    have zero : rounded = 0 := by
      have bounds := isNearest.bounds
      linarith
    rw [zero, zero_div]
  · right
    have ⟨least, most⟩ := bounds_of_isNearest counted isNearest
    have totalPositive : 0 < roundedTotal := by linarith
    constructor
    · rw [le_div_iff₀ totalPositive]
      linarith
    · rw [div_le_iff₀ totalPositive]
      linarith

/-- The roundings do not lead beyond one. -/
theorem rate_le_one {count total : UInt64} {rounded roundedTotal rate : ℚ}
    (fewer : (count.toNat : ℚ) ≤ total.toNat) (nearCount : IsNearest count.toNat rounded)
    (nearTotal : IsNearest total.toNat roundedTotal) (positive : 0 < roundedTotal)
    (nearRate : IsNearest (rounded / roundedTotal) rate) : rate ≤ 1 := by
  have one : IsNearest (1 : ℕ) (1 : ℕ) := isNearest_natCast (by decide)
  rw [Nat.cast_one] at one
  exact nearRate.mono one ((div_le_one positive).mpr (nearCount.mono nearTotal fewer))

/-- The float is zero, or the quotient of two counts that were rounded to floats. -/
theorem Fits.exists_hitRate (fits : statistics.Fits) : ∃ float rate,
    statistics.hitRate = some float ∧ HasAmount float rate ∧ rate ≤ 1 ∧
      |rate - statistics.fraction| ≤ statistics.fraction / 2 ^ 51 := by
  obtain ⟨invocations, added, sum⟩ := fits.exists_total
  have fractionEq : statistics.fraction = statistics.hits.toNat / invocations.toNat := by
    rw [fraction, sum, Nat.cast_add]
  rw [hitRate, added, Option.map_some]
  split
  case isFalse empty =>
    rw [fractionEq, toNat_eq_zero_of_not_pos empty, Nat.cast_zero, div_zero]
    exact ⟨_, 0, rfl, hasAmount_zero, zero_le_one, by simp⟩
  case isTrue invoked =>
    have positive : 0 < invocations.toNat := UInt64.lt_iff_toNat_lt.mp invoked
    obtain ⟨hits, nearHits, floatHits⟩ := hasAmount_toFloat statistics.hits
    obtain ⟨total, nearTotal, floatTotal⟩ := hasAmount_toFloat invocations
    have totalBounds := bounds_of_isNearest positive nearTotal
    have totalPositive : 0 < total := by linarith
    obtain ⟨rate, nearRate, floatRate⟩ := floatHits.div floatTotal totalPositive.ne'
      (quotient_moderate nearHits positive nearTotal)
    have totalCount : (0 : ℚ) < invocations.toNat := mod_cast positive
    have fewer := statistics.fraction_le_one
    rw [fractionEq, div_le_one totalCount] at fewer
    rw [fractionEq]
    exact ⟨_, rate, rfl, floatRate, rate_le_one fewer nearHits nearTotal totalPositive nearRate,
      abs_quotient_sub_le (by positivity) totalCount nearHits nearTotal nearRate⟩

/-- A number of tenths, written with one decimal place. -/
def writtenTenths (tenths : ℕ) : String :=
  s!"{tenths / 10}.{tenths % 10}"

theorem tenthsText_of_denotes {number : Binary64} {amount : ℚ} (denotes : Denotes number amount) :
    tenthsText number = writtenTenths ((magnitude number).rounded 1) := by
  simp only [tenthsText, denotes.natural]
  rfl

variable (statistics) in
def textWith (tenths : ℕ) : String :=
  s!"{statistics.hits} hits, {statistics.misses} misses, {statistics.entries} entries " ++
    s!"({writtenTenths tenths}% hit rate)"

/-- The percentage in the text is that of the fraction, rounded to tenths. -/
theorem Fits.exists_text (fits : statistics.Fits) : ∃ tenths ≤ 1000,
    statistics.text = some (statistics.textWith tenths) ∧
      |tenths - 1000 * statistics.fraction| < 1 := by
  obtain ⟨float, rate, returned, floatRate, -, nearRate⟩ := fits.exists_hitRate
  have ⟨least, most⟩ := abs_le.mp nearRate
  have natural := statistics.fraction_nonneg
  have leOne := statistics.fraction_le_one
  have inside : rate * 100 = 0 ∨ IsModerate (rate * 100) := by
    rcases fits.le_fraction with zero | bound
    · left
      rw [zero] at least most
      linarith
    · right
      constructor <;> linarith
  obtain ⟨percentage, nearPercentage, floatPercentage⟩ := floatRate.mul hasAmount_hundred inside
  have denotes := floatPercentage.denotes
  have isHalfEven := (magnitude (.ofFloat (float * 100.0))).isHalfEven_rounded 1
  rw [denotes.value] at isHalfEven
  have ⟨leastTenths, mostTenths⟩ := abs_le.mp isHalfEven.abs_sub_le
  have ⟨leastPercentage, mostPercentage⟩ := nearPercentage.bounds
  refine ⟨(magnitude (.ofFloat (float * 100.0))).rounded 1, ?_, ?_, ?_⟩
  · have less : ((magnitude (.ofFloat (float * 100.0))).rounded 1 : ℚ) < 1001 := by linarith
    have lessNumber : (magnitude (.ofFloat (float * 100.0))).rounded 1 < 1001 := mod_cast less
    omega
  · rw [text, returned, Option.map_some, textWith, ← tenthsText_of_denotes denotes]
  · rw [abs_lt]
    constructor <;> linarith

/-! ### Fractions of the invocations -/

variable (statistics)

/-- The hit rate is a fraction of the invocations.  The exact rate is zero without hits only, at
most one, not lowered by further hits and not raised by further misses.  The float is at most one
as well, and the text shows at most `100.0%`. -/
structure IsFraction : Prop where
  total : statistics.total.map UInt64.toNat =
    some (statistics.hits.toNat + statistics.misses.toNat)
  exact : statistics.exactRate = some statistics.fraction
  zero : statistics.fraction = 0 ↔ statistics.hits = 0
  leOne : statistics.fraction ≤ 1
  mono : ∀ hits ≤ statistics.hits, ∃ rate ≤ statistics.fraction,
    exactRate { statistics with hits } = some rate
  anti : ∀ misses ≤ statistics.misses, ∃ rate ≥ statistics.fraction,
    exactRate { statistics with misses } = some rate
  returned : ∃ float, statistics.hitRate = some float ∧ ∃ rate ≤ 1,
    Denotes (.ofFloat float) rate ∧ |rate - statistics.fraction| ≤ statistics.fraction / 2 ^ 51
  shown : ∃ tenths ≤ 1000, statistics.text = some (statistics.textWith tenths) ∧
    |tenths - 1000 * statistics.fraction| < 1

/-- The addition overflows, and there is nothing to return or to show. -/
structure Overflows : Prop where
  total : statistics.total = none
  returned : statistics.hitRate = none
  shown : statistics.text = none

variable {statistics}

theorem Fits.isFraction (fits : statistics.Fits) : statistics.IsFraction where
  total := by
    obtain ⟨total, added, sum⟩ := fits.exists_total
    rw [added, Option.map_some, sum]
  exact := fits.exactRate_eq
  zero := statistics.fraction_eq_zero_iff
  leOne := statistics.fraction_le_one
  mono hits le := by
    have fewer : Fits { statistics with hits } := fits.of_le le (UInt64.le_refl _)
    exact ⟨_, fraction_mono le, fewer.exactRate_eq⟩
  anti misses le := by
    have fewer : Fits { statistics with misses } := fits.of_le (UInt64.le_refl _) le
    exact ⟨_, fraction_anti le, fewer.exactRate_eq⟩
  returned := by
    obtain ⟨float, rate, returned, floatRate, leOne, near⟩ := fits.exists_hitRate
    exact ⟨float, returned, rate, leOne, floatRate.denotes, near⟩
  shown := fits.exists_text

theorem overflows_of_not_fits (overflow : ¬statistics.Fits) : statistics.Overflows := by
  have missing := total_of_not_fits overflow
  have noRate : statistics.hitRate = none := by rw [hitRate, missing, Option.map_none]
  exact ⟨missing, noRate, by rw [text, noRate, Option.map_none]⟩

/-- For all counts, the hit rate is a fraction of the invocations exactly if their number fits into
64 bits.  Otherwise the addition overflows. -/
theorem isFraction_iff_fits_and_overflows_iff (statistics : Statistics) :
    (statistics.IsFraction ↔ statistics.Fits) ∧ (statistics.Overflows ↔ ¬statistics.Fits) := by
  refine ⟨⟨fun isFraction => ?_, Fits.isFraction⟩, ⟨fun overflows fits => ?_,
    overflows_of_not_fits⟩⟩
  · by_contra overflow
    have total := isFraction.total
    rw [total_of_not_fits overflow] at total
    cases total
  · obtain ⟨total, added, -⟩ := fits.exists_total
    have missing := overflows.total
    rw [added] at missing
    cases missing

/-- The greatest number of hits and half as many misses: two thirds of the invocations are hits,
but there is no total, no rate and no text. -/
theorem no_rate_of_two_thirds :
    let statistics : Statistics := ⟨18446744073709551615, 9223372036854775808, 0⟩
    statistics.total = none ∧ statistics.hitRate = none ∧ statistics.text = none ∧
      |statistics.fraction - 2 / 3| < 1 / 2 ^ 64 := by
  intro statistics
  refine ⟨by decide, by decide, by decide, ?_⟩
  have hits : statistics.hits.toNat = 18446744073709551615 := by decide
  have misses : statistics.misses.toNat = 9223372036854775808 := by decide
  rw [fraction, hits, misses, abs_lt]
  norm_num

end Statistics

end RecursiveDescent
