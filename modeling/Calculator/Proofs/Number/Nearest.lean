import Calculator.Proofs.Number.Binary64

/- The binary64 number nearest to a fraction. The multiples of one power of two hold every binary64
   number that can be as near, so it is enough to round to one of them. -/
namespace Calculator

def signed (negative : Bool) (q : ℚ) : ℚ := if negative then -q else q

def Binary64.value? : Binary64 → Option ℚ
  | .finite negative mantissa exponent => some (signed negative (mantissa * 2 ^ exponent))
  | _ => none

/-- Halfway between the largest finite number and the power of two after it. -/
def overflowBound : ℚ := 2 ^ 1024 - 2 ^ 970

/-- No finite float is nearer to a number, and where another one is as near the mantissa is even. From
    the bound on there is no such float, and the infinite one takes its place. -/
inductive Nearest (q : ℚ) (x : Float) : Prop where
  | infinite (large : overflowBound ≤ q) (shape : Binary64.ofFloat x = .infinite false)
  | finite {mantissa : ℕ} {exponent : ℤ} (small : q < overflowBound)
      (shape : Binary64.ofFloat x = .finite false mantissa exponent)
      (near : ∀ y v, (Binary64.ofFloat y).value? = some v →
        |q - mantissa * 2 ^ exponent| ≤ |q - v|)
      (even : ∀ y v, (Binary64.ofFloat y).value? = some v →
        |q - mantissa * 2 ^ exponent| = |q - v| → v = mantissa * 2 ^ exponent ∨ Even mantissa)

/-- The powers of two whose multiples have 53 bits around a number; the smallest one serves all numbers
    that have fewer. -/
structure Grid (q : ℚ) (exponent : ℤ) : Prop where
  least : minExponent ≤ exponent
  below : q < 2 ^ 53 * 2 ^ exponent
  fine : exponent = minExponent ∨ 2 ^ 52 * 2 ^ exponent ≤ q

variable {q v : ℚ} {n mantissa : ℕ} {e exponent : ℤ}

theorem finite_of_value {x : Float} (value : (Binary64.ofFloat x).value? = some v) :
    ∃ negative mantissa exponent, Binary64.ofFloat x = .finite negative mantissa exponent ∧
      v = signed negative (mantissa * 2 ^ exponent) := by
  cases shape : Binary64.ofFloat x <;> rw [shape] at value
  · cases value
  · cases value
  · exact ⟨_, _, _, rfl, (Option.some.inj value).symm⟩

theorem nearest_integer (near : IsNearest q n) (k : ℤ) :
    |q - n| ≤ |q - k| ∧ (|q - n| = |q - k| → (k : ℚ) = n ∨ Even n) := by
  obtain ⟨half, even⟩ := near
  by_cases same : k = n
  · subst same
    simp
  · have apart : (1 : ℚ) ≤ |(k : ℚ) - n| := by
      have : 1 ≤ |k - n| := Int.one_le_abs (sub_ne_zero.mpr same)
      exact_mod_cast this
    have triangle : |(k : ℚ) - n| ≤ |q - n| + |q - k| := by
      have := abs_sub_le (k : ℚ) q n
      rwa [abs_sub_comm (k : ℚ) q, add_comm] at this
    refine ⟨by linarith, fun tie => .inr (even ?_)⟩
    linarith

theorem nearest_multiple (near : IsNearest (q * 2 ^ (-e)) n) (k : ℤ) :
    |q - n * 2 ^ e| ≤ |q - k * 2 ^ e| ∧
      (|q - n * 2 ^ e| = |q - k * 2 ^ e| → (k : ℚ) * 2 ^ e = n * 2 ^ e ∨ Even n) := by
  have positive : (0 : ℚ) < 2 ^ e := by positivity
  have distance (r : ℚ) : |q - r * 2 ^ e| = |q * 2 ^ (-e) - r| * 2 ^ e := by
    rw [← abs_of_pos positive, ← abs_mul, abs_of_pos positive, sub_mul, mul_assoc,
      ← zpow_add₀ two_ne_zero, neg_add_cancel, zpow_zero, mul_one]
  obtain ⟨nearer, even⟩ := nearest_integer near k
  rw [distance, distance]
  constructor
  · exact mul_le_mul_of_nonneg_right nearer positive.le
  · intro tie
    rcases even (mul_right_cancel₀ positive.ne' tie) with same | even
    · exact .inl (by rw [same])
    · exact .inr even

theorem grid_log (positive : 0 < q) : Grid q (max minExponent (Int.log 2 q - 52)) := by
  have below : (2 : ℚ) ^ Int.log 2 q ≤ q := by
    exact_mod_cast Int.zpow_log_le_self Nat.one_lt_two positive
  have above : q < (2 : ℚ) ^ (Int.log 2 q + 1) := by
    exact_mod_cast Int.lt_zpow_succ_log_self Nat.one_lt_two q
  have shift (k : ℕ) (e : ℤ) : (2 : ℚ) ^ k * 2 ^ e = 2 ^ (k + e) := by
    rw [← zpow_natCast, ← zpow_add₀ two_ne_zero]
  constructor
  case least => exact le_max_left _ _
  case below =>
    rw [shift]
    refine above.trans_le (zpow_le_zpow_right₀ one_le_two ?_)
    push_cast
    omega
  case fine =>
    rcases le_total (Int.log 2 q - 52) minExponent with smaller | larger
    · exact .inl (max_eq_left smaller)
    · right
      rw [max_eq_right larger, shift]
      refine le_trans (zpow_le_zpow_right₀ one_le_two ?_) below
      push_cast
      omega

theorem nearestBits_grid {x : Fraction} (pos : 0 < x.den) :
    ∃ e n, Grid x.value e ∧ IsNearest (x.value * 2 ^ (-e)) n ∧
      x.nearestBits = min infinityBits (magnitudeBits n e) := by
  by_cases none : x.num = 0
  · have zero : x.value = 0 := (value_eq_zero_iff pos).mpr none
    refine ⟨minExponent, 0, ⟨le_rfl, by rw [zero]; positivity, .inl rfl⟩, ?_, ?_⟩
    · simpa [zero] using nearest_natCast 0
    · simp [Fraction.nearestBits, none, magnitudeBits]
  · have near := round_nearest (scale_den_pos pos Nat.two_pos (-max minExponent (x.log2 - 52)))
    rw [value_scale x Nat.two_pos, Nat.cast_ofNat, log2_eq pos none] at near
    refine ⟨_, _, grid_log (value_pos pos none), near, ?_⟩
    simp only [Fraction.nearestBits, none, if_false, log2_eq pos none, magnitudeBits]

theorem nearest_le {m : ℕ} (near : IsNearest q n) (bound : q < m) : n ≤ m := by
  obtain ⟨half, -⟩ := near
  rw [abs_le] at half
  have : (n : ℚ) < m + 1 := by linarith
  have : n < m + 1 := by exact_mod_cast this
  omega

theorem le_nearest {m : ℕ} (near : IsNearest q n) (bound : (m : ℚ) ≤ q) : m ≤ n := by
  obtain ⟨half, -⟩ := near
  rw [abs_le] at half
  have : (m : ℚ) < n + 1 := by linarith
  have : m < n + 1 := by exact_mod_cast this
  omega

theorem grid_scaled (grid : Grid q e) : q * 2 ^ (-e) < (2 ^ 53 : ℕ) ∧
    (e = minExponent ∨ ((2 ^ 52 : ℕ) : ℚ) ≤ q * 2 ^ (-e)) := by
  have positive : (0 : ℚ) < 2 ^ e := by positivity
  rw [zpow_neg, ← div_eq_mul_inv, div_lt_iff₀ positive, le_div_iff₀ positive]
  push_cast
  exact ⟨grid.below, grid.fine⟩

/-- The nearest multiple is a magnitude; the one that needs 54 bits is a power of two. -/
theorem canonical_of_grid (grid : Grid q e) (near : IsNearest (q * 2 ^ (-e)) n) :
    ∃ mantissa exponent, Canonical mantissa exponent ∧
      (mantissa : ℚ) * 2 ^ exponent = n * 2 ^ e ∧
      magnitudeBits mantissa exponent = magnitudeBits n e ∧ (Even n → Even mantissa) := by
  obtain ⟨below, fine⟩ := grid_scaled grid
  have least := grid.least
  have hidden := hiddenBit_eq
  rcases Nat.lt_or_eq_of_le (nearest_le near below) with small | full
  · refine ⟨n, e, ⟨small, least, ?_⟩, rfl, rfl, id⟩
    rcases fine with same | fine
    · exact .inr same
    · exact .inl (le_nearest near fine)
  · refine ⟨2 ^ 52, e + 1, ⟨by norm_num, by omega, .inl (by omega)⟩, ?_, ?_, fun _ => by decide⟩
    · rw [full, zpow_add_one₀ two_ne_zero]
      push_cast
      ring
    · unfold magnitudeBits
      have steps : (e + 1 - minExponent).toNat = (e - minExponent).toNat + 1 := by omega
      rw [full, steps, hidden]
      omega

theorem overflowBound_eq : overflowBound = (2 ^ 53 - 1 / 2) * 2 ^ (971 : ℤ) := by
  have half : (2 : ℚ) ^ 970 * 2 = 2 ^ 971 := (pow_succ 2 970).symm
  have whole : (2 : ℚ) ^ 53 * 2 ^ 971 = 2 ^ 1024 := (pow_add 2 53 971).symm
  rw [overflowBound, show (971 : ℤ) = (971 : ℕ) from rfl, zpow_natCast, ← whole, ← half]
  generalize (2 : ℚ) ^ 970 = unit
  ring

theorem lt_overflowBound (grid : Grid q e) (smaller : e < 971) : q < overflowBound := by
  rw [overflowBound_eq]
  calc q < 2 ^ 53 * 2 ^ e := grid.below
    _ ≤ 2 ^ 53 * 2 ^ (970 : ℤ) := by gcongr; exacts [one_le_two, by omega]
    _ ≤ (2 ^ 53 - 1 / 2) * 2 ^ (971 : ℤ) := by
      have unit : (0 : ℚ) < 2 ^ (970 : ℤ) := by positivity
      rw [show (971 : ℤ) = 970 + 1 from rfl, zpow_add_one₀ two_ne_zero]
      generalize (2 : ℚ) ^ (970 : ℤ) = x at unit
      linarith

theorem overflowBound_le (grid : Grid q e) (larger : 971 < e) : overflowBound ≤ q := by
  have least : minExponent = -1074 := rfl
  rw [overflowBound_eq]
  calc (2 ^ 53 - 1 / 2 : ℚ) * 2 ^ (971 : ℤ) ≤ 2 ^ 52 * 2 ^ (972 : ℤ) := by
        have unit : (0 : ℚ) < 2 ^ (971 : ℤ) := by positivity
        rw [show (972 : ℤ) = 971 + 1 from rfl, zpow_add_one₀ two_ne_zero]
        generalize (2 : ℚ) ^ (971 : ℤ) = x at unit
        linarith
    _ ≤ 2 ^ 52 * 2 ^ e := by gcongr; exacts [one_le_two, by omega]
    _ ≤ q := grid.fine.resolve_left (by omega)

theorem nearest_eq_iff {m : ℕ} (near : IsNearest q n) (below : q < m) (even : Even m) :
    n = m ↔ (m : ℚ) - 1 / 2 ≤ q := by
  constructor
  · rintro rfl
    have := (abs_le.mp near.1).1
    linarith
  · intro large
    refine nearest_unique near ⟨?_, fun _ => even⟩
    rw [abs_le]
    constructor <;> linarith

theorem overflow_iff (grid : Grid q e) (near : IsNearest (q * 2 ^ (-e)) n) :
    infinityBits ≤ magnitudeBits n e ↔ overflowBound ≤ q := by
  obtain ⟨below, fine⟩ := grid_scaled grid
  have full := nearest_le near below
  have least : minExponent = -1074 := rfl
  have bits : infinityBits = 2047 * 2 ^ 52 := rfl
  rw [magnitudeBits, hiddenBit_eq, bits]
  rcases lt_trichotomy e 971 with smaller | rfl | larger
  · have finite : ¬ 2047 * 2 ^ 52 ≤ (e - minExponent).toNat * 2 ^ 52 + n := by omega
    simp only [finite, not_le.mpr (lt_overflowBound grid smaller)]
  · -- the largest binade: the bound is the number halfway below its end
    have power : (0 : ℚ) < 2 ^ (971 : ℤ) := by positivity
    have ends : 2047 * 2 ^ 52 ≤ (971 - minExponent).toNat * 2 ^ 52 + n ↔ n = 2 ^ 53 := by omega
    rw [ends, nearest_eq_iff near below (by decide), zpow_neg, ← div_eq_mul_inv,
      le_div_iff₀ power, overflowBound_eq, Nat.cast_pow, Nat.cast_ofNat]
  · have normal : 2 ^ 52 ≤ n := le_nearest near (fine.resolve_left (by omega))
    have infinite : 2047 * 2 ^ 52 ≤ (e - minExponent).toNat * 2 ^ 52 + n := by omega
    simp only [infinite, overflowBound_le grid larger]

theorem canonical_of_ofBits {bits : ℕ} {negative : Bool}
    (read : Binary64.ofBits bits = .finite negative mantissa exponent) :
    Canonical mantissa exponent := by
  have small : minExponent = -1074 := rfl
  simp only [Binary64.ofBits] at read
  have hidden := hiddenBit_eq
  have fraction := Nat.mod_lt bits (Nat.two_pow_pos 52)
  rw [← hidden] at fraction
  split at read
  · split at read <;> cases read
  · split at read
    · obtain ⟨-, rfl, rfl⟩ := Binary64.finite.inj read
      exact ⟨by omega, le_rfl, .inr rfl⟩
    · obtain ⟨-, rfl, rfl⟩ := Binary64.finite.inj read
      exact ⟨by omega, by omega, .inl (by omega)⟩

theorem abs_signed (negative : Bool) (q : ℚ) : |signed negative q| = |q| := by
  cases negative <;> simp [signed]

theorem signed_le (negative : Bool) (nonneg : 0 ≤ q) : signed negative q ≤ q :=
  (le_abs_self _).trans_eq ((abs_signed negative q).trans (abs_of_nonneg nonneg))

theorem finer_lt (canonical : Canonical mantissa exponent) (finer : exponent < e) :
    (mantissa : ℚ) * 2 ^ exponent < 2 ^ 52 * 2 ^ e := by
  calc (mantissa : ℚ) * 2 ^ exponent < 2 ^ 53 * 2 ^ exponent := by
        gcongr
        exact_mod_cast canonical.below
    _ ≤ 2 ^ 53 * 2 ^ (e - 1) := by gcongr; exacts [one_le_two, by omega]
    _ = 2 ^ 52 * 2 ^ e := by
      rw [zpow_sub_one₀ two_ne_zero]
      ring

theorem grid_nearest (grid : Grid q e) (near : IsNearest (q * 2 ^ (-e)) n) {y : Float}
    (value : (Binary64.ofFloat y).value? = some v) :
    |q - n * 2 ^ e| ≤ |q - v| ∧ (|q - n * 2 ^ e| = |q - v| → v = n * 2 ^ e ∨ Even n) := by
  obtain ⟨negative, m, k, shape, rfl⟩ := finite_of_value value
  have canonical := canonical_of_ofBits shape
  rcases Int.lt_or_le k e with finer | coarser
  · -- finer than the grid are only numbers below its normal range
    have fine := grid.fine.resolve_left (by have := canonical.least; omega)
    have small : signed negative (m * 2 ^ k) < 2 ^ 52 * 2 ^ e :=
      (signed_le negative (by positivity)).trans_lt (finer_lt canonical finer)
    have strict : |q - n * 2 ^ e| < |q - signed negative (m * 2 ^ k)| := by
      have nearer := (nearest_multiple near (2 ^ 52 : ℕ)).1
      rw [Int.cast_natCast, Nat.cast_pow, Nat.cast_ofNat] at nearer
      rw [abs_of_nonneg (sub_nonneg.mpr fine)] at nearer
      exact nearer.trans_lt ((sub_lt_sub_left small q).trans_le (le_abs_self _))
    exact ⟨strict.le, fun tie => absurd tie strict.ne⟩
  · obtain ⟨steps, rfl⟩ : ∃ steps : ℕ, k = e + steps := ⟨(k - e).toNat, by omega⟩
    have multiple : signed negative (m * 2 ^ (e + steps)) =
        ((if negative then -(m * 2 ^ steps) else m * 2 ^ steps : ℤ) : ℚ) * 2 ^ e := by
      rw [zpow_add₀ two_ne_zero, zpow_natCast]
      cases negative <;> simp [signed] <;> ring
    rw [multiple]
    exact nearest_multiple near _

theorem nearestBits_infinite {x : Fraction} (pos : 0 < x.den) (large : overflowBound ≤ x.value) :
    x.nearestBits = infinityBits := by
  obtain ⟨e, n, grid, near, bits⟩ := nearestBits_grid pos
  rw [bits, Nat.min_eq_left ((overflow_iff grid near).mpr large)]

theorem nearestBits_zero {x : Fraction} (pos : 0 < x.den)
    (tiny : x.value < 2 ^ (minExponent - 1)) : x.nearestBits = 0 := by
  obtain ⟨e, n, grid, near, bits⟩ := nearestBits_grid pos
  have nonneg : 0 ≤ x.value := by
    unfold Fraction.value
    positivity
  have unit : (0 : ℚ) < 2 ^ minExponent := by positivity
  have half : (2 : ℚ) ^ (minExponent - 1) = 2 ^ minExponent / 2 := zpow_sub_one₀ two_ne_zero _
  obtain rfl : e = minExponent := by
    refine grid.fine.resolve_right (not_le.mpr (tiny.trans_le ?_))
    calc (2 : ℚ) ^ (minExponent - 1) ≤ 2 ^ e := by
          gcongr
          · exact one_le_two
          · have := grid.least
            omega
      _ ≤ 2 ^ 52 * 2 ^ e := le_mul_of_one_le_left (by positivity) (by norm_num)
  obtain rfl : n = 0 := by
    refine nearest_unique near ?_
    have small : x.value * 2 ^ (-minExponent) < 1 / 2 := by
      rw [zpow_neg, ← div_eq_mul_inv, div_lt_iff₀ unit]
      linarith
    have := nearest_below (n := 0) (r := x.value * 2 ^ (-minExponent)) (by positivity) (by linarith)
    simpa using this
  simp [bits, magnitudeBits]

theorem toFloat_nearest {x : Fraction} (pos : 0 < x.den) : Nearest x.value x.toFloat := by
  by_cases large : overflowBound ≤ x.value
  · refine .infinite large ?_
    rw [ofFloat_toFloat, nearestBits_infinite pos large]
    rfl
  · obtain ⟨e, n, grid, near, bits⟩ := nearestBits_grid pos
    obtain ⟨mantissa, exponent, canonical, same, stored, even⟩ := canonical_of_grid grid near
    have below : magnitudeBits n e < infinityBits :=
      Nat.lt_of_not_le (mt (overflow_iff grid near).mp large)
    rw [Nat.min_eq_right below.le, ← stored] at bits
    rw [← stored] at below
    refine @Nearest.finite _ _ mantissa exponent (not_le.mp large) ?_ ?_ ?_
    · rw [ofFloat_toFloat]
      exact (ofBits_finite_iff.mpr ⟨canonical, bits, bits ▸ below⟩).1
    · intro y v value
      rw [same]
      exact (grid_nearest grid near value).1
    · intro y v value tie
      rw [same] at tie ⊢
      exact ((grid_nearest grid near value).2 tie).imp_right even

end Calculator
