import Calculator.Proofs.Number.Bits
import Calculator.Proofs.Number.Fraction

/- Rounding to binary64. The nearest number depends on the value of a fraction only, and a binary64
   magnitude is nearest to itself. -/
namespace Calculator

/-- The mantissas and exponents that a binary64 number can have; small mantissas stand with the
    smallest exponent only. -/
structure Canonical (mantissa : ℕ) (exponent : ℤ) : Prop where
  below : mantissa < 2 ^ 53
  least : minExponent ≤ exponent
  normal : hiddenBit ≤ mantissa ∨ exponent = minExponent

/-- The bits of a magnitude; exponents past the last one give numbers from infinity on. -/
def magnitudeBits (mantissa : ℕ) (exponent : ℤ) : ℕ :=
  (exponent - minExponent).toNat * hiddenBit + mantissa

theorem hiddenBit_eq : hiddenBit = 2 ^ 52 := rfl

theorem nearestBits_congr {x y : Fraction} (xpos : 0 < x.den) (ypos : 0 < y.den)
    (same : x.value = y.value) : x.nearestBits = y.nearestBits := by
  have zero : x.num = 0 ↔ y.num = 0 := by
    rw [← value_eq_zero_iff xpos, ← value_eq_zero_iff ypos, same]
  simp only [Fraction.nearestBits]
  by_cases none : x.num = 0
  · rw [if_pos none, if_pos (zero.mp none)]
  · have log : x.log2 = y.log2 := by rw [log2_eq xpos none, log2_eq ypos (mt zero.mpr none), same]
    have round (power : ℤ) : (x.scale 2 power).round = (y.scale 2 power).round := by
      rw [round_eq_iff (scale_den_pos xpos Nat.two_pos power), value_scale x Nat.two_pos, same,
        ← value_scale y Nat.two_pos]
      exact round_nearest (scale_den_pos ypos Nat.two_pos power)
    rw [if_neg none, if_neg (mt zero.mpr none), log, round]

theorem magnitude_den_pos (mantissa : ℕ) (exponent : ℤ) : 0 < (magnitude mantissa exponent).den :=
  scale_den_pos Nat.one_pos Nat.two_pos exponent

theorem value_magnitude (mantissa : ℕ) (exponent : ℤ) :
    (magnitude mantissa exponent).value = mantissa * (2 : ℚ) ^ exponent := by
  rw [magnitude, value_scale _ Nat.two_pos]
  simp [Fraction.value]

theorem magnitude_num_eq_zero {mantissa : ℕ} {exponent : ℤ} :
    (magnitude mantissa exponent).num = 0 ↔ mantissa = 0 := by
  simp [magnitude, Fraction.scale]

theorem exponent_magnitude {mantissa : ℕ} {exponent : ℤ} (canonical : Canonical mantissa exponent)
    (nonzero : mantissa ≠ 0) :
    max minExponent ((magnitude mantissa exponent).log2 - 52) = exponent := by
  have positive : (0 : ℚ) < mantissa * 2 ^ exponent := by
    have := Nat.pos_of_ne_zero nonzero
    positivity
  rw [log2_eq (magnitude_den_pos _ _) (mt magnitude_num_eq_zero.mp nonzero), value_magnitude]
  have upper : Int.log 2 (mantissa * 2 ^ exponent : ℚ) < 53 + exponent := by
    refine (Int.lt_zpow_iff_log_lt Nat.one_lt_two positive).mp ?_
    have : (mantissa : ℚ) < 2 ^ 53 := by exact_mod_cast canonical.below
    rw [Nat.cast_ofNat, zpow_add₀ two_ne_zero]
    exact mul_lt_mul_of_pos_right this (by positivity)
  have least := canonical.least
  rcases canonical.normal with normal | smallest
  · have lower : 52 + exponent ≤ Int.log 2 (mantissa * 2 ^ exponent : ℚ) := by
      refine (Int.zpow_le_iff_le_log Nat.one_lt_two positive).mp ?_
      have : (2 : ℚ) ^ 52 ≤ mantissa := by exact_mod_cast hiddenBit_eq ▸ normal
      rw [Nat.cast_ofNat, zpow_add₀ two_ne_zero]
      exact mul_le_mul_of_nonneg_right this (by positivity)
    omega
  · omega

theorem nearestBits_magnitude {mantissa : ℕ} {exponent : ℤ}
    (canonical : Canonical mantissa exponent) :
    (magnitude mantissa exponent).nearestBits = min infinityBits (magnitudeBits mantissa exponent) := by
  simp only [Fraction.nearestBits]
  by_cases zero : mantissa = 0
  · obtain rfl : exponent = minExponent := by
      rcases canonical.normal with normal | smallest
      · rw [zero] at normal
        exact absurd normal (by decide)
      · exact smallest
    simp [zero, magnitude, Fraction.scale, magnitudeBits]
  · have round : ((magnitude mantissa exponent).scale 2 (-exponent)).round = mantissa := by
      rw [round_eq_iff (scale_den_pos (magnitude_den_pos _ _) Nat.two_pos _),
        value_scale _ Nat.two_pos, value_magnitude, Nat.cast_ofNat, mul_assoc,
        ← zpow_add₀ two_ne_zero, add_neg_cancel, zpow_zero, mul_one]
      exact nearest_natCast mantissa
    rw [if_neg (mt magnitude_num_eq_zero.mp zero), exponent_magnitude canonical zero, round]
    rfl

theorem nearestBits_le (x : Fraction) : x.nearestBits ≤ infinityBits := by
  unfold Fraction.nearestBits
  split
  · exact Nat.zero_le _
  · exact Nat.min_le_left _ _

theorem ofBits_finite_iff {bits mantissa : ℕ} {exponent : ℤ} :
    (Binary64.ofBits bits = .finite false mantissa exponent ∧ bits < 2 ^ 64) ↔
      Canonical mantissa exponent ∧ bits = magnitudeBits mantissa exponent ∧ bits < infinityBits := by
  have small : minExponent = -1074 := rfl
  have hidden : hiddenBit = 0x10000000000000 := rfl
  simp only [Binary64.ofBits, magnitudeBits, infinityBits, hidden]
  constructor
  · intro finite
    obtain ⟨read, within⟩ := finite
    split at read
    · split at read <;> cases read
    · split at read
      · obtain ⟨sign, rfl, rfl⟩ := Binary64.finite.inj read
        rw [decide_eq_false_iff_not] at sign
        exact ⟨⟨by omega, by omega, .inr rfl⟩, by omega, by omega⟩
      · obtain ⟨sign, rfl, rfl⟩ := Binary64.finite.inj read
        rw [decide_eq_false_iff_not] at sign
        exact ⟨⟨by omega, by omega, .inl (by omega)⟩, by omega, by omega⟩
  · intro shape
    obtain ⟨⟨below, least, normal⟩, rfl, within⟩ := shape
    rw [hidden] at normal
    obtain ⟨steps, rfl⟩ : ∃ steps : ℕ, exponent = minExponent + steps :=
      ⟨(exponent - minExponent).toNat, by omega⟩
    have sign : decide (0x8000000000000000 ≤
        (minExponent + steps - minExponent).toNat * 0x10000000000000 + mantissa) = false := by
      rw [decide_eq_false_iff_not]
      omega
    refine ⟨?_, by omega⟩
    simp only [sign]
    rw [if_neg (by omega)]
    by_cases normal : 2 ^ 52 ≤ mantissa
    · rw [if_neg (by omega)]
      congr 1 <;> omega
    · rw [if_pos (by omega)]
      congr 1 <;> omega

theorem ofBits_of_le {bits : ℕ} (within : bits ≤ infinityBits) :
    Binary64.ofBits bits = .infinite false ∨
      ∃ mantissa exponent, Binary64.ofBits bits = .finite false mantissa exponent := by
  have hidden : hiddenBit = 0x10000000000000 := rfl
  rw [infinityBits] at within
  have sign : decide (0x8000000000000000 ≤ bits) = false := by
    rw [decide_eq_false_iff_not]
    omega
  simp only [Binary64.ofBits, hidden, sign]
  split
  · rw [if_pos (by omega)]
    exact .inl rfl
  · split
    · exact .inr ⟨_, _, rfl⟩
    · exact .inr ⟨_, _, rfl⟩

theorem ofFloat_toFloat (x : Fraction) : Binary64.ofFloat x.toFloat = .ofBits x.nearestBits := by
  rw [Binary64.ofFloat, Fraction.toFloat, toBits_ofBits_ofNat (nearestBits_le x)]

theorem toFloat_eq {x : Fraction} {y : Float} (same : x.nearestBits = y.toBits.toNat) :
    x.toFloat = y := by
  rw [Fraction.toFloat, same, ofBits_toBits_toNat]

theorem magnitude_toFloat {x : Float} {mantissa : ℕ} {exponent : ℤ}
    (finite : Binary64.ofFloat x = .finite false mantissa exponent) :
    (magnitude mantissa exponent).nearestBits = x.toBits.toNat := by
  obtain ⟨canonical, bits, within⟩ := ofBits_finite_iff.mp ⟨finite, x.toBits.toNat_lt⟩
  rw [nearestBits_magnitude canonical, ← bits]
  exact Nat.min_eq_right within.le

end Calculator
