import Mathlib
import RecursiveDescent.Proofs.NearestNumbers

/-!
# The amounts of floats

An operation on floats calculates a significand of at least 53 bits, and keeps track in two more
bits of how the exact result lies above it.  The significand is then cut down to 53 bits, and those
two bits decide whether it is rounded up.

The main statements are `hasAmount_toFloat`, `HasAmount.mul` and `HasAmount.div`: the result is the
number nearest to the exact one.  They leave out amounts close to the least and the greatest one,
and signs.
-/

namespace RecursiveDescent

namespace Decimal

open Float.Model
open Float.Model.UnpackedFloat

variable {amount : ℚ} {extended : ExtendedMantissa}

/-! ### Round and sticky bits -/

/-- The amount up to and including the round bit. -/
def truncated (extended : ExtendedMantissa) : ℚ :=
  extended.mantissa + if extended.roundBit then 1 / 2 else 0

theorem truncated_off (mantissa : ℕ) (stickyBit : Bool) :
    truncated ⟨mantissa, false, stickyBit⟩ = mantissa := by
  simp [truncated]

theorem truncated_on (mantissa : ℕ) (stickyBit : Bool) :
    truncated ⟨mantissa, true, stickyBit⟩ = mantissa + 1 / 2 := by
  simp [truncated]

/-- The amount begins with the mantissa and its round bit, and the sticky bit tells whether
anything is left behind them. -/
structure Approximates (extended : ExtendedMantissa) (amount : ℚ) : Prop where
  lower : truncated extended ≤ amount
  upper : amount < truncated extended + 1 / 2
  sticky : extended.stickyBit = true ↔ truncated extended < amount

theorem approximates_exact (mantissa : ℕ) :
    Approximates (.ofMantissaAndAccuracy mantissa .exact) mantissa := by
  change Approximates ⟨mantissa, false, false⟩ mantissa
  constructor <;> simp [truncated_off]

theorem approximates_fraction (mantissa : ℕ) {rest denominator : ℕ} (small : rest < denominator) :
    Approximates (.ofMantissaAndAccuracy mantissa (accuracyOfFraction rest denominator))
      (mantissa + rest / denominator) := by
  have scale : 0 < denominator := (Nat.zero_le rest).trans_lt small
  by_cases absent : rest = 0
  · subst absent
    simpa [accuracyOfFraction] using approximates_exact mantissa
  · have positive : (0 : ℚ) < rest / denominator :=
      div_pos (mod_cast Nat.pos_of_ne_zero absent) (mod_cast scale)
    have below : (rest : ℚ) / denominator < 1 := fraction_lt_one small
    rw [accuracyOfFraction, if_neg absent]
    cases order : compare (2 * rest) denominator with
    | lt =>
        change Approximates ⟨mantissa, false, true⟩ _
        have half := (fraction_lt_half_iff scale).mpr (compare_lt_iff_lt.mp order)
        refine ⟨?_, ?_, iff_of_true rfl ?_⟩ <;> rw [truncated_off] <;> linarith
    | eq =>
        change Approximates ⟨mantissa, true, false⟩ _
        have half := (fraction_eq_half_iff scale).mpr (compare_eq_iff_eq.mp order)
        refine ⟨?_, ?_, iff_of_false Bool.false_ne_true (not_lt.mpr ?_)⟩ <;>
          rw [truncated_on] <;> linarith
    | gt =>
        change Approximates ⟨mantissa, true, true⟩ _
        have half := (half_lt_fraction_iff scale).mpr (compare_gt_iff_gt.mp order)
        refine ⟨?_, ?_, iff_of_true rfl ?_⟩ <;> rw [truncated_on] <;> linarith

theorem mantissa_ofMantissaAndAccuracy (mantissa : ℕ) (accuracy : Accuracy) :
    (ExtendedMantissa.ofMantissaAndAccuracy mantissa accuracy).mantissa = mantissa := by
  rcases accuracy with _ | (_ | _ | _) <;> rfl

theorem Approximates.mantissa_le (approximates : Approximates extended amount) :
    extended.mantissa ≤ amount := by
  refine le_trans ?_ approximates.lower
  rw [truncated]
  split <;> linarith

theorem Approximates.lt_mantissa_add_one (approximates : Approximates extended amount) :
    amount < extended.mantissa + 1 := by
  refine approximates.upper.trans_le ?_
  rw [truncated]
  split <;> linarith

/-- The mantissa that is cut by a bit is one half of the old one, counting the bit cut off. -/
theorem truncated_shiftRightOne (extended : ExtendedMantissa) :
    truncated extended.shiftRightOne = extended.mantissa / 2 := by
  obtain ⟨mantissa, roundBit, stickyBit⟩ := extended
  have parts : (2 * (mantissa / 2 : ℕ) + (mantissa % 2 : ℕ) : ℚ) = mantissa :=
    mod_cast Nat.div_add_mod mantissa 2
  rcases Nat.mod_two_eq_zero_or_one mantissa with even | odd
  · rw [even] at parts
    simp [truncated, ExtendedMantissa.shiftRightOne, even, ← parts]
  · rw [odd] at parts
    simp [truncated, ExtendedMantissa.shiftRightOne, odd, ← parts]
    ring

theorem Approximates.shiftRightOne (approximates : Approximates extended amount) :
    Approximates extended.shiftRightOne (amount / 2) := by
  obtain ⟨mantissa, roundBit, stickyBit⟩ := extended
  obtain ⟨lower, upper, sticky⟩ := approximates
  cases roundBit with
  | false =>
      rw [truncated_off] at lower upper sticky
      refine ⟨?_, ?_, ?_⟩ <;> rw [truncated_shiftRightOne]
      · linarith
      · linarith
      · exact sticky.trans (by constructor <;> intro <;> linarith)
  | true =>
      rw [truncated_on] at lower upper
      refine ⟨?_, ?_, iff_of_true rfl ?_⟩ <;> rw [truncated_shiftRightOne] <;> linarith

theorem Approximates.shiftRight (approximates : Approximates extended amount) (shift : ℕ) :
    Approximates (extended >>> shift) (amount / 2 ^ shift) := by
  change Approximates (shift.repeat ExtendedMantissa.shiftRightOne extended) _
  induction shift with
  | zero => simpa [Nat.repeat] using approximates
  | succ shift induction =>
      rw [Nat.repeat, pow_succ, ← div_div]
      exact induction.shiftRightOne

theorem Approximates.isHalfEven (approximates : Approximates extended amount) :
    IsHalfEven amount extended.roundedMantissa := by
  obtain ⟨mantissa, roundBit, stickyBit⟩ := extended
  obtain ⟨lower, upper, sticky⟩ := approximates
  obtain ⟨rest, rfl⟩ : ∃ rest, amount = mantissa + rest := ⟨amount - mantissa, by ring⟩
  cases roundBit with
  | false =>
      rw [truncated_off] at lower upper
      have rounded : ExtendedMantissa.roundedMantissa ⟨mantissa, false, stickyBit⟩ = mantissa := by
        cases stickyBit <;> rfl
      rw [rounded]
      exact isHalfEven_below (by linarith) (by linarith)
  | true =>
      rw [truncated_on] at lower upper sticky
      cases stickyBit with
      | false =>
          have tie : rest = 1 / 2 := by
            have notAbove := mt sticky.mpr Bool.false_ne_true
            linarith
          subst tie
          change IsHalfEven _ (mantissa + mantissa % 2)
          exact isHalfEven_tie (by omega) (by omega)
      | true =>
          have above := sticky.mp rfl
          exact isHalfEven_above (by linarith) (by linarith)

/-! ### Words of normal numbers -/

/-- The product `significand * 2 ^ exponent` is a number, and the significand has all 53 bits. -/
structure IsNormal (significand : ℕ) (exponent : ℤ) : Prop where
  low : 2 ^ 52 ≤ significand
  high : significand < 2 ^ 53
  least : -1074 ≤ exponent
  greatest : exponent ≤ 971

variable {significand : ℕ} {exponent : ℤ}

theorem IsNormal.positive (isNormal : IsNormal significand exponent) : 0 < significand :=
  (Nat.two_pow_pos 52).trans_le isNormal.low

theorem log2_of_bits (low : 2 ^ 52 ≤ significand) (high : significand < 2 ^ 53) :
    significand.log2 = 52 :=
  (Nat.log2_eq_iff (by omega)).mpr ⟨low, high⟩

/-- The float of a normal number without a sign. -/
def normalFloat (isNormal : IsNormal significand exponent) : Float :=
  .ofModel (.pack (.finite .positive significand exponent isNormal.positive))

def zeroFloat : Float :=
  .ofModel (.pack (.zero .positive))

theorem unpack_zeroFloat : zeroFloat.toModel.unpack = .zero .positive :=
  rfl

theorem IsNormal.pack (isNormal : IsNormal significand exponent) :
    UnpackedFloat.pack Format.binary64 (.finite .positive significand exponent isNormal.positive) =
      packComponents Format.binary64 .positive (BitVec.ofNat 11 (exponent + 1075).toNat)
        (BitVec.ofNat 52 significand) := by
  obtain ⟨low, high, least, greatest⟩ := isNormal
  have biased : exponent + Format.binary64.exponentBias +
      Format.binary64.mantissaBitsWithoutImplicit = exponent + 1075 := by
    change exponent + 1023 + 52 = exponent + 1075
    omega
  have inside : ¬2 ^ 11 ≤ (exponent + 1075).toNat + 1 := by omega
  have bits : 52 + 1 = Format.binary64.mantissaBits := rfl
  simp only [UnpackedFloat.pack, log2_of_bits low high, biased]
  rw [if_neg inside, if_pos bits]

theorem IsNormal.toNat_biased (isNormal : IsNormal significand exponent) :
    (BitVec.ofNat 11 (exponent + 1075).toNat).toNat = (exponent + 1075).toNat := by
  have greatest := isNormal.greatest
  exact Nat.mod_eq_of_lt (by omega)

/-- The leading bit of the significand is not stored. -/
theorem IsNormal.toNat_leading (isNormal : IsNormal significand exponent) :
    (1#1 ++ BitVec.ofNat 52 significand).toNat = significand := by
  have ⟨low, high, _, _⟩ := isNormal
  have stored : significand % 2 ^ 52 < 2 ^ 52 := Nat.mod_lt significand (Nat.two_pow_pos 52)
  rw [BitVec.toNat_append, BitVec.toNat_ofNat, BitVec.toNat_ofNat,
    ← Nat.shiftLeft_add_eq_or_of_lt stored, Nat.shiftLeft_eq]
  omega

theorem unpack_normalFloat (isNormal : IsNormal significand exponent) :
    (normalFloat isNormal).toModel.unpack =
      .finite .positive significand exponent isNormal.positive := by
  have ⟨_, _, least, greatest⟩ := isNormal
  have notGreatest : BitVec.ofNat 11 (exponent + 1075).toNat ≠ -1#11 := by
    apply ne_of_apply_ne BitVec.toNat
    rw [isNormal.toNat_biased]
    change (exponent + 1075).toNat ≠ 2047
    omega
  have notLeast : BitVec.ofNat 11 (exponent + 1075).toNat ≠ 0#11 := by
    apply ne_of_apply_ne BitVec.toNat
    rw [isNormal.toNat_biased]
    change (exponent + 1075).toNat ≠ 0
    omega
  have unbiased : ((exponent + 1075).toNat : ℤ) -
      (Format.binary64.exponentBias + Format.binary64.mantissaBitsWithoutImplicit) = exponent := by
    change ((exponent + 1075).toNat : ℤ) - (1023 + 52) = exponent
    omega
  change UnpackedFloat.unpack Format.binary64 (UnpackedFloat.pack Format.binary64 _) = _
  rw [isNormal.pack, UnpackedFloat.unpack]
  simp only [unpackMantissa_packComponents, unpackExponent_packComponents,
    unpackSign_packComponents, Sign.ofBitVec_toBitVec]
  rw [if_neg notGreatest, if_neg notLeast]
  simp only [isNormal.toNat_biased, isNormal.toNat_leading, unbiased]

/-- The word of a normal number without a sign. -/
theorem bits_normalFloat (isNormal : IsNormal significand exponent) :
    (Binary64.ofFloat (normalFloat isNormal)).bits.toNat =
      (exponent + 1075).toNat * 2 ^ 52 + significand % 2 ^ 52 := by
  have stored : significand % 2 ^ 52 < 2 ^ 52 := Nat.mod_lt significand (Nat.two_pow_pos 52)
  have unsigned : (0#1 ++ BitVec.ofNat 11 (exponent + 1075).toNat).toNat =
      (exponent + 1075).toNat := by
    rw [BitVec.toNat_append, isNormal.toNat_biased]
    exact Nat.zero_or _
  change (UnpackedFloat.pack Format.binary64 _).toNat = _
  rw [isNormal.pack]
  change (0#1 ++ BitVec.ofNat 11 (exponent + 1075).toNat ++ BitVec.ofNat 52 significand).toNat = _
  rw [BitVec.toNat_append, unsigned, BitVec.toNat_ofNat, ← Nat.shiftLeft_add_eq_or_of_lt stored,
    Nat.shiftLeft_eq]

/-! ### Floats that have an amount -/

/-- The float is zero or a normal number, without a sign, and it stands for the amount. -/
inductive HasAmount : Float → ℚ → Prop where
  | zero : HasAmount zeroFloat 0
  | normal {significand : ℕ} {exponent : ℤ} (isNormal : IsNormal significand exponent) :
      HasAmount (normalFloat isNormal) (significand * 2 ^ exponent)

def Magnitude.value (number : Magnitude) : ℚ :=
  number.significand * 2 ^ number.exponent

/-- Rounding to a number of decimal places is rounding of the exact value. -/
theorem Magnitude.isHalfEven_rounded (number : Magnitude) (places : ℕ) :
    IsHalfEven (number.value * 10 ^ places) (number.rounded places) := by
  have parts : number.value * 10 ^ places =
      (number.significand * 2 ^ number.exponent.toNat * 10 ^ places : ℕ) /
        (2 ^ (-number.exponent).toNat : ℕ) := by
    have power : (2 : ℚ) ^ number.exponent =
        2 ^ number.exponent.toNat / 2 ^ (-number.exponent).toNat := by
      rw [← zpow_natCast, ← zpow_natCast, ← zpow_sub₀ two_ne_zero, Int.toNat_sub_toNat_neg]
    rw [Magnitude.value, power]
    push_cast
    ring
  rw [parts]
  exact isHalfEven_roundedQuotient _ (Nat.two_pow_pos _)

/-- The number is finite, has no sign and amounts to the given one. -/
structure Denotes (number : Binary64) (amount : ℚ) : Prop where
  isFinite : number.isFinite
  natural : number.isNegative = false
  value : (magnitude number).value = amount

theorem denotes_zeroFloat : Denotes (.ofFloat zeroFloat) 0 where
  isFinite := rfl
  natural := rfl
  value := by
    have parts : magnitude (.ofFloat zeroFloat) = ⟨0, -1074⟩ := rfl
    simp [parts, Magnitude.value]

theorem magnitude_normalFloat (isNormal : IsNormal significand exponent) :
    magnitude (.ofFloat (normalFloat isNormal)) = ⟨significand, exponent⟩ := by
  have ⟨low, high, least, greatest⟩ := isNormal
  have fraction : ((exponent + 1075).toNat * 2 ^ 52 + significand % 2 ^ 52) % 2 ^ 52 =
      significand % 2 ^ 52 := by
    omega
  have biased : ((exponent + 1075).toNat * 2 ^ 52 + significand % 2 ^ 52) / 2 ^ 52 % 2 ^ 11 =
      (exponent + 1075).toNat := by
    omega
  simp only [magnitude, bits_normalFloat isNormal, storedBits, fraction, biased, leastExponent]
  rw [if_neg (by omega), Magnitude.mk.injEq]
  constructor <;> omega

theorem denotes_normalFloat (isNormal : IsNormal significand exponent) :
    Denotes (.ofFloat (normalFloat isNormal)) (significand * 2 ^ exponent) where
  isFinite := by
    have ⟨low, high, least, greatest⟩ := isNormal
    have infinity : Binary64.infinity.bits.toNat = 2047 * 2 ^ 52 := rfl
    rw [Binary64.isFinite, Binary64.magnitudeBits, bits_normalFloat isNormal, infinity,
      decide_eq_true_eq]
    omega
  natural := by
    have ⟨low, high, least, greatest⟩ := isNormal
    rw [Binary64.isNegative, bits_normalFloat isNormal, decide_eq_false_iff_not]
    omega
  value := by rw [magnitude_normalFloat, Magnitude.value]

theorem HasAmount.denotes {float : Float} (hasAmount : HasAmount float amount) :
    Denotes (.ofFloat float) amount := by
  cases hasAmount with
  | zero => exact denotes_zeroFloat
  | normal isNormal => exact denotes_normalFloat isNormal

/-! ### Rounding to a normal number -/

/-- The amount is so far from the least and the greatest number that it is rounded to a normal
one. -/
structure IsModerate (amount : ℚ) : Prop where
  least : 1 / 2 ^ 200 ≤ amount
  greatest : amount ≤ 2 ^ 200

theorem IsModerate.bounds {scaled : ℚ} (isModerate : IsModerate (scaled * 2 ^ exponent))
    (low : 2 ^ 52 ≤ scaled) (high : scaled ≤ 2 ^ 54) : -254 ≤ exponent ∧ exponent ≤ 148 := by
  have least : (2 : ℚ) ^ (-200 : ℤ) ≤ 2 ^ (54 + exponent) :=
    calc (2 : ℚ) ^ (-200 : ℤ) = 1 / 2 ^ 200 := by rw [zpow_neg, one_div]; rfl
      _ ≤ scaled * 2 ^ exponent := isModerate.least
      _ ≤ 2 ^ 54 * 2 ^ exponent := by gcongr
      _ = 2 ^ (54 + exponent) := by rw [zpow_add₀ two_ne_zero]; rfl
  have greatest : (2 : ℚ) ^ (52 + exponent) ≤ 2 ^ (200 : ℤ) :=
    calc (2 : ℚ) ^ (52 + exponent) = 2 ^ 52 * 2 ^ exponent := by rw [zpow_add₀ two_ne_zero]; rfl
      _ ≤ scaled * 2 ^ exponent := by gcongr
      _ ≤ 2 ^ (200 : ℤ) := isModerate.greatest
  rw [zpow_le_zpow_iff_right₀ one_lt_two] at least greatest
  omega

theorem shiftToTargetExponent_of_log2 {shift : ℕ} (bits : significand.log2 = 52 + shift)
    (least : -1074 ≤ exponent + shift) (accuracy : Accuracy) :
    shiftToTargetExponent Format.binary64 significand exponent accuracy =
      (ExtendedMantissa.ofMantissaAndAccuracy significand accuracy >>> shift,
        exponent + shift) := by
  have target : Format.binary64.targetExponent (totalExponent significand exponent) =
      exponent + shift := by
    rw [Format.targetExponent, totalExponent, bits]
    change max (((52 + shift : ℕ) : ℤ) + 1 + exponent - 53) (-1074) = exponent + shift
    omega
  have distance : (exponent + shift - exponent).toNat = shift := by omega
  rw [shiftToTargetExponent, target]
  simp only [shiftToExponent, distance]

/-- Rounding up may lead to one bit too many, which is zero then. -/
theorem exists_isNormal_of_rounded {whole : ℕ} (low : 2 ^ 52 ≤ whole) (high : whole ≤ 2 ^ 53)
    (least : -1074 ≤ exponent) (greatest : exponent ≤ 970) :
    ∃ last : ExtendedMantissa × ℤ,
      shiftToTargetExponent Format.binary64 whole exponent .exact = last ∧
        IsNormal last.1.mantissa last.2 ∧
        (last.1.mantissa : ℚ) * 2 ^ last.2 = whole * 2 ^ exponent := by
  rcases high.lt_or_eq with less | rfl
  · have bits : whole.log2 = 52 + 0 := log2_of_bits low less
    refine ⟨_, shiftToTargetExponent_of_log2 bits (by omega) .exact, ?_, ?_⟩
    · change IsNormal whole (exponent + 0)
      constructor <;> omega
    · change (whole : ℚ) * 2 ^ (exponent + 0) = whole * 2 ^ exponent
      rw [add_zero]
  · have bits : Nat.log2 (2 ^ 53) = 52 + 1 := Nat.log2_two_pow
    refine ⟨_, shiftToTargetExponent_of_log2 bits (by omega) .exact, ?_, ?_⟩
    · change IsNormal (2 ^ 53 / 2) (exponent + 1)
      constructor <;> omega
    · change ((2 ^ 53 / 2 : ℕ) : ℚ) * 2 ^ (exponent + 1) = (2 ^ 53 : ℕ) * 2 ^ exponent
      rw [zpow_add_one₀ two_ne_zero]
      norm_num
      ring

theorem roundWithAccuracy_eq {accuracy : Accuracy} {first last : ExtendedMantissa × ℤ}
    (isFirst : shiftToTargetExponent Format.binary64 significand exponent accuracy = first)
    (isLast : shiftToTargetExponent Format.binary64 first.1.roundedMantissa first.2 .exact = last)
    (positive : 0 < last.1.mantissa) :
    roundWithAccuracy Format.binary64 .positive significand exponent accuracy =
      .finite .positive last.1.mantissa last.2 positive := by
  subst isFirst isLast
  exact dif_neg positive.ne'

/-- A significand with its round and sticky bits is rounded to the nearest number. -/
theorem hasAmount_roundWithAccuracy {accuracy : Accuracy} (low : 2 ^ 52 ≤ significand)
    (approximates : Approximates (.ofMantissaAndAccuracy significand accuracy) amount)
    (isModerate : IsModerate (amount * 2 ^ exponent)) :
    ∃ rounded, IsNearest (amount * 2 ^ exponent) rounded ∧
      HasAmount (.ofModel (.pack (roundWithAccuracy Format.binary64 .positive significand exponent
        accuracy))) rounded := by
  obtain ⟨shift, bits⟩ : ∃ shift, significand.log2 = 52 + shift :=
    Nat.exists_eq_add_of_le ((Nat.le_log2 (by omega)).mpr low)
  have lower := approximates.mantissa_le
  have upper := approximates.lt_mantissa_add_one
  rw [mantissa_ofMantissaAndAccuracy] at lower upper
  have least : 2 ^ (52 + shift) ≤ amount := by
    have bit : 2 ^ (52 + shift) ≤ significand := bits ▸ Nat.log2_self_le (by omega)
    exact le_trans (mod_cast bit) lower
  have most : amount < 2 ^ (53 + shift) := by
    have bit : significand + 1 ≤ 2 ^ (52 + shift + 1) := bits ▸ Nat.lt_log2_self
    rw [Nat.add_right_comm 52 shift 1] at bit
    exact upper.trans_le (mod_cast bit)
  -- The first shift leaves 53 bits in front of the round bit.
  have scaledLow : 2 ^ 52 ≤ amount / 2 ^ shift := by
    rwa [le_div_iff₀ (by positivity), ← pow_add]
  have scaledHigh : amount / 2 ^ shift < 2 ^ 53 := by
    rwa [div_lt_iff₀ (by positivity), ← pow_add]
  have scaled : amount * 2 ^ exponent = amount / 2 ^ shift * 2 ^ (exponent + shift) := by
    rw [zpow_add₀ two_ne_zero, zpow_natCast]
    field_simp
  rw [scaled] at isModerate ⊢
  have bounds := isModerate.bounds scaledLow (by linarith)
  have inside : -1074 ≤ exponent + shift := by omega
  have isFirst := shiftToTargetExponent_of_log2 bits inside accuracy
  have isHalfEven := (approximates.shiftRight shift).isHalfEven
  have wholeBounds := isHalfEven.of_bits scaledLow scaledHigh
  obtain ⟨last, isLast, isNormal, same⟩ :=
    exists_isNormal_of_rounded wholeBounds.1 wholeBounds.2 inside (by omega)
  refine ⟨_, .positive (exponent + shift) scaledLow scaledHigh isHalfEven, ?_⟩
  rw [← same, roundWithAccuracy_eq isFirst isLast isNormal.positive]
  exact .normal isNormal

/-! ### Operations -/

variable {left right : Float} {amountLeft amountRight : ℚ}

theorem hasAmount_zero : HasAmount 0.0 0 := by
  have same : (0.0 : Float).toModel = zeroFloat.toModel := by decide +kernel
  have float : (0.0 : Float) = zeroFloat := congrArg Float.ofModel same
  rw [float]
  exact .zero

theorem isNormal_hundred : IsNormal (100 * 2 ^ 46) (-46) := by
  constructor <;> norm_num

theorem hasAmount_hundred : HasAmount 100.0 100 := by
  have same : (100.0 : Float).toModel = (normalFloat isNormal_hundred).toModel := by
    decide +kernel
  have float : (100.0 : Float) = normalFloat isNormal_hundred := congrArg Float.ofModel same
  have amount : (100 : ℚ) = (100 * 2 ^ 46 : ℕ) * 2 ^ (-46 : ℤ) := by norm_num
  rw [float, amount]
  exact .normal isNormal_hundred

theorem round_natCast (number : ℕ) :
    UnpackedFloat.round Format.binary64 .positive number 0 =
      roundWithAccuracy Format.binary64 .positive (number * 2 ^ (52 - number.log2))
        (-(52 - number.log2 : ℕ)) .exact := by
  have target : Format.binary64.targetExponent (totalExponent number 0) = number.log2 - 52 := by
    rw [Format.targetExponent, totalExponent]
    change max ((number.log2 : ℤ) + 1 + 0 - 53) (-1074) = number.log2 - 52
    omega
  have shift : (0 - ((number.log2 : ℤ) - 52)).toNat = 52 - number.log2 := by omega
  simp only [UnpackedFloat.round, target, decreaseExponent, shift, Nat.shiftLeft_eq]
  rw [zero_sub]

/-- A count is converted to the nearest number. -/
theorem hasAmount_toFloat (number : UInt64) :
    ∃ rounded, IsNearest number.toNat rounded ∧ HasAmount number.toFloat rounded := by
  by_cases absent : number = 0
  · subst absent
    exact ⟨0, .zero, .zero⟩
  · have positive : 0 < number.toNat := UInt64.pos_iff_ne_zero.mpr absent
    have order : compare (number.toNat : ℤ) 0 = .gt := compare_gt_iff_gt.mpr (by omega)
    have isModerate : IsModerate number.toNat := by
      have least : (1 : ℚ) ≤ number.toNat := mod_cast positive
      have greatest : (number.toNat : ℚ) ≤ 2 ^ 64 := mod_cast number.toNat_lt.le
      constructor <;> linarith
    have float : number.toFloat =
        .ofModel (.pack (UnpackedFloat.round Format.binary64 .positive number.toNat 0)) := by
      change Float.ofModel (.pack (UnpackedFloat.normalize _ (number.toNat : ℤ) 0 .positive)) = _
      rw [UnpackedFloat.normalize, order]
      rfl
    rw [natCast_eq_scaled number.toNat (52 - number.toNat.log2)] at isModerate ⊢
    rw [float, round_natCast]
    exact hasAmount_roundWithAccuracy (two_pow_le_scaled positive.ne') (approximates_exact _)
      isModerate

section Products

variable {significandRight : ℕ} {exponentRight : ℤ}

theorem mul_eq (left right : Float) :
    left * right = .ofModel (.pack (UnpackedFloat.mul Format.binary64 left.toModel.unpack
      right.toModel.unpack)) :=
  rfl

theorem product_eq : (significand : ℚ) * 2 ^ exponent * (significandRight * 2 ^ exponentRight) =
    (significand * significandRight : ℕ) * 2 ^ (exponent + exponentRight) := by
  rw [zpow_add₀ two_ne_zero]
  push_cast
  ring

/-- The product of two floats is the number nearest to the product of their amounts. -/
theorem HasAmount.mul (first : HasAmount left amountLeft) (second : HasAmount right amountRight)
    (inside : amountLeft * amountRight = 0 ∨ IsModerate (amountLeft * amountRight)) :
    ∃ rounded, IsNearest (amountLeft * amountRight) rounded ∧
      HasAmount (left * right) rounded := by
  rw [mul_eq]
  cases first with
  | zero =>
      rw [zero_mul, unpack_zeroFloat]
      cases second with
      | zero => exact ⟨0, .zero, .zero⟩
      | normal isNormal =>
          rw [unpack_normalFloat]
          exact ⟨0, .zero, .zero⟩
  | normal isNormalLeft =>
      rw [unpack_normalFloat]
      cases second with
      | zero =>
          rw [mul_zero, unpack_zeroFloat]
          exact ⟨0, .zero, .zero⟩
      | normal isNormalRight =>
          have positive := Nat.mul_pos isNormalLeft.positive isNormalRight.positive
          rw [product_eq] at inside ⊢
          rw [unpack_normalFloat]
          exact hasAmount_roundWithAccuracy
            (isNormalLeft.low.trans (Nat.le_mul_of_pos_right _ isNormalRight.positive))
            (approximates_exact _) (inside.resolve_left (by positivity))

theorem div_eq (left right : Float) :
    left / right = .ofModel (.pack (UnpackedFloat.div Format.binary64 left.toModel.unpack
      right.toModel.unpack)) :=
  rfl

theorem quotient_eq : (significand : ℚ) * 2 ^ exponent / (significandRight * 2 ^ exponentRight) =
    (significand * 2 ^ 53 : ℕ) / significandRight * 2 ^ (exponent - exponentRight - 53) := by
  rw [zpow_sub₀ two_ne_zero, zpow_sub₀ two_ne_zero, zpow_ofNat]
  push_cast
  field_simp
  norm_num

variable (first : IsNormal significand exponent) (second : IsNormal significandRight exponentRight)
include first second

theorem IsNormal.quotient_bounds : 2 ^ 52 * significandRight ≤ significand * 2 ^ 53 ∧
    significand * 2 ^ 53 ≤ 2 ^ 54 * significandRight := by
  have ⟨low, high, _, _⟩ := first
  have ⟨lowRight, highRight, _, _⟩ := second
  omega

/-- The quotient of two significands is calculated with 53 or 54 bits. -/
theorem IsNormal.divCore_eq (least : -1074 ≤ exponent - exponentRight - 53) :
    divCore Format.binary64 significand exponent significandRight exponentRight =
      (significand * 2 ^ 53 / significandRight, exponent - exponentRight - 53,
        accuracyOfFraction (significand * 2 ^ 53 % significandRight) significandRight) := by
  have target : min (exponent - exponentRight) (Format.binary64.targetExponent
      (totalExponent significand exponent - totalExponent significandRight exponentRight)) =
      exponent - exponentRight - 53 := by
    rw [Format.targetExponent, totalExponent, totalExponent, log2_of_bits first.low first.high,
      log2_of_bits second.low second.high]
    change min (exponent - exponentRight)
      (max (52 + 1 + exponent - (52 + 1 + exponentRight) - 53) (-1074)) = _
    omega
  have shift : (exponent - exponentRight - (exponent - exponentRight - 53)).toNat = 53 := by omega
  simp only [divCore, target, shift, Nat.shiftLeft_eq]

end Products

/-- The quotient of two floats is the number nearest to the quotient of their amounts. -/
theorem HasAmount.div (first : HasAmount left amountLeft) (second : HasAmount right amountRight)
    (notZero : amountRight ≠ 0)
    (inside : amountLeft / amountRight = 0 ∨ IsModerate (amountLeft / amountRight)) :
    ∃ rounded, IsNearest (amountLeft / amountRight) rounded ∧
      HasAmount (left / right) rounded := by
  rw [div_eq]
  cases second with
  | zero => exact absurd rfl notZero
  | normal isNormalRight =>
      rw [unpack_normalFloat]
      cases first with
      | zero =>
          rw [zero_div, unpack_zeroFloat]
          exact ⟨0, .zero, .zero⟩
      | normal isNormalLeft =>
          have positive := isNormalRight.positive
          have positiveLeft := Nat.mul_pos isNormalLeft.positive (Nat.two_pow_pos 53)
          have ⟨least, most⟩ := isNormalLeft.quotient_bounds isNormalRight
          rw [quotient_eq] at inside ⊢
          have isModerate := inside.resolve_left (by positivity)
          have bounds := isModerate.bounds ((le_div_iff₀ (mod_cast positive)).mpr (mod_cast least))
            ((div_le_iff₀ (mod_cast positive)).mpr (mod_cast most))
          rw [unpack_normalFloat]
          simp only [UnpackedFloat.div, isNormalLeft.divCore_eq isNormalRight (by omega)]
          -- The remainder decides how the exact quotient lies above the whole one.
          rw [div_eq_natCast_add _ positive] at isModerate ⊢
          exact hasAmount_roundWithAccuracy ((Nat.le_div_iff_mul_le positive).mpr least)
            (approximates_fraction _ (Nat.mod_lt _ positive)) isModerate

end Decimal

end RecursiveDescent
