import Calculator.Number.Fraction
import Mathlib.Algebra.Order.Field.Power
import Mathlib.Data.Int.Log
import Mathlib.Data.Rat.Floor
import Mathlib.Tactic.FieldSimp
import Mathlib.Tactic.Linarith
import Mathlib.Tactic.Positivity

/- Fractions as rational numbers. Scaling, rounding and the binary logarithm depend on the number
   only, not on how the fraction is written. -/
namespace Calculator

def Fraction.value (x : Fraction) : ℚ := x.num / x.den

/-- No integer is nearer to a number, and of two as near it is the even one. -/
def IsNearest (q : ℚ) (n : ℕ) : Prop := |q - n| ≤ 1 / 2 ∧ (|q - n| = 1 / 2 → Even n)

theorem scale_eq (x : Fraction) (base : ℕ) (power : ℤ) : x.scale base power =
    ⟨x.num * base ^ power.toNat, x.den * base ^ (-power).toNat⟩ := rfl

theorem scale_den_pos {x : Fraction} (pos : 0 < x.den) {base : ℕ} (positive : 0 < base)
    (power : ℤ) : 0 < (x.scale base power).den :=
  Nat.mul_pos pos (Nat.pow_pos positive)

theorem value_scale (x : Fraction) {base : ℕ} (positive : 0 < base) (power : ℤ) :
    (x.scale base power).value = x.value * (base : ℚ) ^ power := by
  have nonzero : (base : ℚ) ≠ 0 := by exact_mod_cast positive.ne'
  rcases power with n | n
  · simp [scale_eq, Fraction.value]
    ring
  · have power : (-Int.negSucc n).toNat = n + 1 := by simp [Int.neg_negSucc]
    simp only [scale_eq, Fraction.value, power, Int.toNat_negSucc, zpow_negSucc]
    push_cast
    field_simp

theorem value_pos {x : Fraction} (pos : 0 < x.den) (nonzero : x.num ≠ 0) : 0 < x.value := by
  have := Nat.pos_of_ne_zero nonzero
  unfold Fraction.value
  positivity

theorem value_eq_zero_iff {x : Fraction} (pos : 0 < x.den) : x.value = 0 ↔ x.num = 0 := by
  have : x.den ≠ 0 := pos.ne'
  simp [Fraction.value, this]

theorem one_le_value_iff {x : Fraction} (pos : 0 < x.den) : 1 ≤ x.value ↔ x.den ≤ x.num := by
  have positive : (0 : ℚ) < x.den := by exact_mod_cast pos
  rw [Fraction.value, one_le_div positive]
  exact_mod_cast Iff.rfl

theorem floor_eq {x : Fraction} (pos : 0 < x.den) :
    x.value = x.floor + (x.num % x.den : ℕ) / x.den := by
  have nonzero : (x.den : ℚ) ≠ 0 := by exact_mod_cast pos.ne'
  have parts : (x.num : ℚ) = x.den * (x.num / x.den : ℕ) + (x.num % x.den : ℕ) := by
    exact_mod_cast (Nat.div_add_mod x.num x.den).symm
  rw [Fraction.value, Fraction.floor, parts]
  field_simp

theorem nearest_below {n : ℕ} {r : ℚ} (nonneg : 0 ≤ r) (less : 2 * r < 1) :
    IsNearest (n + r) n := by
  have distance : |(n + r : ℚ) - n| = r := by rw [add_sub_cancel_left, abs_of_nonneg nonneg]
  exact ⟨by linarith, fun tie => by linarith⟩

theorem nearest_above {n : ℕ} {r : ℚ} (below : r < 1) (more : 1 < 2 * r) :
    IsNearest (n + r) (n + 1 : ℕ) := by
  have distance : |(n + r : ℚ) - (n + 1 : ℕ)| = 1 - r := by
    rw [abs_sub_comm, abs_of_nonneg] <;> push_cast <;> linarith
  exact ⟨by linarith, fun tie => by linarith⟩

theorem nearest_halfway {n : ℕ} {r : ℚ} (tie : 2 * r = 1) : IsNearest (n + r) (n + n % 2 : ℕ) := by
  have even : Even (n + n % 2) := by rw [Nat.even_iff]; omega
  obtain rfl : r = 1 / 2 := by linarith
  refine ⟨?_, fun _ => even⟩
  rcases Nat.mod_two_eq_zero_or_one n with same | next
  · simp [same]
  · rw [next, abs_sub_comm, abs_of_nonneg] <;> push_cast <;> linarith

theorem round_nearest {x : Fraction} (pos : 0 < x.den) : IsNearest x.value x.round := by
  have positive : (0 : ℚ) < x.den := by exact_mod_cast pos
  have part : x.num % x.den < x.den := Nat.mod_lt _ pos
  rw [floor_eq pos]
  have half : 2 * ((x.num % x.den : ℕ) / x.den : ℚ) = (2 * (x.num % x.den) : ℕ) / x.den := by
    push_cast
    ring
  have below : ((x.num % x.den : ℕ) / x.den : ℚ) < 1 := by
    rw [div_lt_one positive]
    exact_mod_cast part
  simp only [Fraction.round]
  by_cases less : 2 * (x.num % x.den) < x.den
  · rw [if_pos less]
    refine nearest_below (by positivity) ?_
    rw [half, div_lt_one positive]
    exact_mod_cast less
  · rw [if_neg less]
    by_cases more : x.den < 2 * (x.num % x.den)
    · rw [if_pos more]
      refine nearest_above below ?_
      rw [half, one_lt_div positive]
      exact_mod_cast more
    · rw [if_neg more]
      refine nearest_halfway ?_
      rw [half, div_eq_one_iff_eq positive.ne']
      exact_mod_cast Nat.le_antisymm (Nat.le_of_not_lt more) (Nat.le_of_not_lt less)

theorem nearest_unique {q : ℚ} {n m : ℕ} (one : IsNearest q n) (other : IsNearest q m) : n = m := by
  obtain ⟨near, even⟩ := one
  obtain ⟨near', even'⟩ := other
  rw [abs_le] at near near'
  have close : (n : ℚ) ≤ m + 1 ∧ (m : ℚ) ≤ n + 1 := ⟨by linarith, by linarith⟩
  have : n ≤ m + 1 ∧ m ≤ n + 1 := by exact_mod_cast close
  rcases Nat.lt_trichotomy n m with less | same | more
  · obtain rfl : m = n + 1 := by omega
    push_cast at near near' even'
    have halfway : q = n + 1 / 2 := by linarith
    have one := even (by rw [halfway]; norm_num)
    have two := even' (by rw [halfway]; norm_num [abs_of_neg])
    rw [Nat.even_iff] at one two
    omega
  · exact same
  · obtain rfl : n = m + 1 := by omega
    push_cast at near near' even
    have halfway : q = m + 1 / 2 := by linarith
    have one := even (by rw [halfway]; norm_num [abs_of_neg])
    have two := even' (by rw [halfway]; norm_num)
    rw [Nat.even_iff] at one two
    omega

theorem round_eq_iff {x : Fraction} (pos : 0 < x.den) {n : ℕ} :
    x.round = n ↔ IsNearest x.value n :=
  ⟨fun same => same ▸ round_nearest pos, fun near => nearest_unique (round_nearest pos) near⟩

theorem nearest_natCast (n : ℕ) : IsNearest n n := by simp [IsNearest]

theorem log2_guess {x : Fraction} (pos : 0 < x.den) (nonzero : x.num ≠ 0) :
    (2 : ℚ) ^ ((x.num.log2 : ℤ) - x.den.log2 - 1) < x.value ∧
      x.value < (2 : ℚ) ^ ((x.num.log2 : ℤ) - x.den.log2 + 1) := by
  have num_below : (2 : ℚ) ^ x.num.log2 ≤ x.num := by exact_mod_cast Nat.log2_self_le nonzero
  have num_above : (x.num : ℚ) < 2 ^ (x.num.log2 + 1) := by exact_mod_cast Nat.lt_log2_self
  have den_below : (2 : ℚ) ^ x.den.log2 ≤ x.den := by exact_mod_cast Nat.log2_self_le pos.ne'
  have den_above : (x.den : ℚ) < 2 ^ (x.den.log2 + 1) := by exact_mod_cast Nat.lt_log2_self
  have positive : (0 : ℚ) < x.den := by exact_mod_cast pos
  have two : (2 : ℚ) ≠ 0 := two_ne_zero
  constructor
  · rw [Fraction.value, lt_div_iff₀ positive]
    calc (2 : ℚ) ^ ((x.num.log2 : ℤ) - x.den.log2 - 1) * x.den
        < 2 ^ ((x.num.log2 : ℤ) - x.den.log2 - 1) * 2 ^ (x.den.log2 + 1) := by gcongr
      _ = 2 ^ x.num.log2 := by
        rw [← zpow_natCast, ← zpow_natCast, ← zpow_add₀ two]
        push_cast
        congr 1
        ring
      _ ≤ x.num := num_below
  · rw [Fraction.value, div_lt_iff₀ positive]
    calc (x.num : ℚ) < 2 ^ (x.num.log2 + 1) := num_above
      _ = 2 ^ ((x.num.log2 : ℤ) - x.den.log2 + 1) * 2 ^ x.den.log2 := by
        rw [← zpow_natCast, ← zpow_natCast, ← zpow_add₀ two]
        push_cast
        congr 1
        ring
      _ ≤ 2 ^ ((x.num.log2 : ℤ) - x.den.log2 + 1) * x.den := by gcongr

theorem log2_eq {x : Fraction} (pos : 0 < x.den) (nonzero : x.num ≠ 0) :
    x.log2 = Int.log 2 x.value := by
  obtain ⟨below, above⟩ := log2_guess pos nonzero
  have positive := value_pos pos nonzero
  set guess : ℤ := (x.num.log2 : ℤ) - x.den.log2 with guess_eq
  have reached : (x.scale 2 (-guess)).den ≤ (x.scale 2 (-guess)).num ↔ (2 : ℚ) ^ guess ≤ x.value := by
    rw [← one_le_value_iff (scale_den_pos pos Nat.two_pos _), value_scale _ Nat.two_pos, zpow_neg,
      ← div_eq_mul_inv]
    exact one_le_div (by positivity)
  have upper : Int.log 2 x.value < guess + 1 :=
    (Int.lt_zpow_iff_log_lt Nat.one_lt_two positive).mp (by exact_mod_cast above)
  have lower : guess - 1 ≤ Int.log 2 x.value :=
    (Int.zpow_le_iff_le_log Nat.one_lt_two positive).mp (by exact_mod_cast below.le)
  have exact_iff : guess ≤ Int.log 2 x.value ↔ (2 : ℚ) ^ guess ≤ x.value := by
    rw [← Int.zpow_le_iff_le_log Nat.one_lt_two positive, Nat.cast_ofNat]
  simp only [Fraction.log2, ← guess_eq]
  by_cases enough : (x.scale 2 (-guess)).den ≤ (x.scale 2 (-guess)).num
  · rw [if_pos enough]
    have := exact_iff.mpr (reached.mp enough)
    omega
  · rw [if_neg enough]
    have := mt exact_iff.mp (mt reached.mpr enough)
    omega

end Calculator
