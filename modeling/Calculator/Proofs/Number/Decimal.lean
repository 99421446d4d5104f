import Calculator.Proofs.Number.Binary64
import Calculator.Proofs.Number.Literal

/- Decimals, written and read back. The shortest decimal of a magnitude rounds to the magnitude, and
   the text of a decimal is a literal of the same value. -/
namespace Calculator

theorem fraction_den_pos (d : Decimal) : 0 < d.fraction.den :=
  scale_den_pos Nat.one_pos (by decide) d.exponent

theorem value_fraction (d : Decimal) : d.fraction.value = d.digits * (10 : ℚ) ^ d.exponent := by
  rw [Decimal.fraction, value_scale _ (by decide)]
  simp [Fraction.value]

theorem value_zeros (digits zeros : ℕ) :
    (⟨digits * 10 ^ zeros, 0⟩ : Decimal).fraction.value =
      (⟨digits, zeros⟩ : Decimal).fraction.value := by
  simp [value_fraction]

theorem exact_eq (mantissa : ℕ) (exponent : ℤ) : Decimal.exact mantissa exponent =
    if 0 ≤ exponent then ⟨mantissa * 2 ^ exponent.toNat, 0⟩
    else ⟨mantissa * 5 ^ (-exponent).toNat, exponent⟩ := rfl

theorem value_exact (mantissa : ℕ) (exponent : ℤ) :
    (Decimal.exact mantissa exponent).fraction.value = (magnitude mantissa exponent).value := by
  rw [value_fraction, value_magnitude, exact_eq]
  by_cases whole : 0 ≤ exponent
  · rw [if_pos whole]
    obtain ⟨n, rfl⟩ := Int.eq_ofNat_of_zero_le whole
    simp
  · rw [if_neg whole]
    obtain ⟨n, rfl⟩ : ∃ n : ℕ, exponent = -n := ⟨exponent.natAbs, by omega⟩
    have tens : (10 : ℚ) ^ n = 2 ^ n * 5 ^ n := by rw [← mul_pow]; norm_num
    simp only [neg_neg, Int.toNat_natCast, Nat.cast_mul, Nat.cast_pow, Nat.cast_ofNat, zpow_neg,
      zpow_natCast, tens]
    field_simp

theorem onGrid_nearestBits {x : Fraction} {exponent : ℤ} {d : Decimal}
    (hit : Decimal.onGrid? x exponent = some d) : d.fraction.nearestBits = x.nearestBits := by
  simp only [Decimal.onGrid?] at hit
  split at hit
  · rename_i below above
    rw [beq_iff_eq] at below above
    obtain rfl := Option.some.inj hit
    split
    · exact below
    · exact above
  · rename_i below above
    rw [beq_iff_eq] at below
    obtain rfl := Option.some.inj hit
    exact below
  · rename_i below above
    rw [beq_iff_eq] at above
    obtain rfl := Option.some.inj hit
    exact above
  · cases hit

theorem coarsest_nearestBits {x : Fraction} {d : Decimal} {tries : ℕ} {exponent : ℤ}
    (hit : Decimal.coarsest? x tries exponent = some d) :
    d.fraction.nearestBits = x.nearestBits := by
  induction tries generalizing exponent with
  | zero => cases hit
  | succ tries ih =>
    rw [Decimal.coarsest?, Option.or_eq_some_iff] at hit
    rcases hit with first | ⟨-, later⟩
    · exact onGrid_nearestBits first
    · exact ih later

theorem shortest_nearestBits (mantissa : ℕ) (exponent : ℤ) :
    (Decimal.shortest mantissa exponent).fraction.nearestBits =
      (magnitude mantissa exponent).nearestBits := by
  simp only [Decimal.shortest]
  by_cases zero : mantissa = 0
  · simp [Fraction.nearestBits, Decimal.fraction, Fraction.scale, magnitude, zero]
  · rw [if_neg zero]
    cases hit : Decimal.coarsest? (magnitude mantissa exponent) 20
        (magnitude mantissa exponent).decimalBound with
    | some d => exact coarsest_nearestBits hit
    | none =>
      exact nearestBits_congr (fraction_den_pos _) (magnitude_den_pos _ _) (value_exact _ _)

theorem digits_isDigit (n : ℕ) : ∀ c ∈ Nat.toDigits 10 n, c.isDigit = true :=
  fun _ member => Nat.isDigit_of_mem_toDigits (by decide) (by decide) member

def placeDigits (places n : ℕ) : List Char := (Nat.toDigits 10 n).leftpad places '0'

theorem placeDigits_isDigit (places n : ℕ) : ∀ c ∈ placeDigits places n, c.isDigit = true := by
  intro c member
  rcases List.mem_append.mp member with zero | digit
  · rw [List.eq_of_mem_replicate zero]
    rfl
  · exact digits_isDigit n c digit

theorem placeDigits_length {places n : ℕ} (positive : 0 < places) (small : n < 10 ^ places) :
    (placeDigits places n).length = places := by
  have := (Nat.length_toDigits_le_iff (by decide) positive).mpr small
  simp [placeDigits, List.leftpad, this]

theorem ofDigitChars_placeDigits {places n : ℕ} (positive : 0 < places) (small : n < 10 ^ places)
    (whole : ℕ) : Nat.ofDigitChars 10 (placeDigits places n) whole = 10 ^ places * whole + n := by
  rw [Nat.ofDigitChars_eq_ofDigitChars_zero, placeDigits_length positive small, placeDigits,
    List.leftpad, Nat.ofDigitChars_append, Nat.ofDigitChars_replicate_zero, Nat.mul_zero,
    Nat.ofDigitChars_ten_toDigits]

theorem decimal_plain (whole places : List Char) :
    (⟨whole, places, false, []⟩ : Literal).decimal =
      ⟨Nat.ofDigitChars 10 places (Nat.ofDigitChars 10 whole 0), -places.length⟩ := by
  simp [Literal.decimal, exponentValue, Nat.ofDigitChars_append]

theorem write_zeros (digits zeros : ℕ) : (⟨digits, zeros⟩ : Decimal).write =
    Nat.toDigits 10 digits ++ List.replicate zeros '0' := rfl

theorem write_places (digits : ℕ) {places : ℕ} (positive : 0 < places) :
    (⟨digits, -places⟩ : Decimal).write =
      Nat.toDigits 10 (digits / 10 ^ places) ++ '.' :: placeDigits places (digits % 10 ^ places) := by
  have part : ¬ (0 : ℤ) ≤ -places := by omega
  rw [Decimal.write, if_neg part]
  simp [placeDigits]

theorem write_parts (d : Decimal) : ∃ whole places : List Char, whole ≠ [] ∧
    (∀ c ∈ whole, c.isDigit = true) ∧ (∀ c ∈ places, c.isDigit = true) ∧
    (places = [] ∧ d.write = whole ∨ d.write = whole ++ '.' :: places) ∧
    (⟨whole, places, false, []⟩ : Literal).decimal.fraction.value = d.fraction.value := by
  obtain ⟨digits, exponent⟩ := d
  obtain ⟨zeros, rfl⟩ | ⟨places, positive, rfl⟩ :
      (∃ zeros : ℕ, exponent = zeros) ∨ ∃ places : ℕ, 0 < places ∧ exponent = -places := by
    rcases Int.lt_or_le exponent 0 with part | whole
    · exact .inr ⟨exponent.natAbs, by omega, by omega⟩
    · exact .inl (Int.eq_ofNat_of_zero_le whole)
  · have all : ∀ c ∈ Nat.toDigits 10 digits ++ List.replicate zeros '0', c.isDigit = true := by
      intro c member
      rcases List.mem_append.mp member with digit | zero
      · exact digits_isDigit _ c digit
      · rw [List.eq_of_mem_replicate zero]
        rfl
    refine ⟨_, [], by simp [Nat.toDigits_ne_nil], all, by simp, .inl ⟨rfl, write_zeros _ _⟩, ?_⟩
    have same := value_zeros digits zeros
    rw [mul_comm] at same
    simpa [decimal_plain, Nat.ofDigitChars_append] using same
  · have small : digits % 10 ^ places < 10 ^ places := Nat.mod_lt _ (by positivity)
    refine ⟨_, _, Nat.toDigits_ne_nil, digits_isDigit _, placeDigits_isDigit _ _,
      .inr (write_places digits positive), ?_⟩
    rw [decimal_plain, Nat.ofDigitChars_ten_toDigits, ofDigitChars_placeDigits positive small,
      placeDigits_length positive small, Nat.div_add_mod]

theorem write_reads (d : Decimal) : ∃ literal, Literal.ofWord? d.write = some literal ∧
    literal.decimal.fraction.value = d.fraction.value := by
  obtain ⟨whole, places, nonempty, digits, after, ⟨rfl, text⟩ | text, value⟩ := write_parts d
  · have plain := literal_of_text (.parts ⟨nonempty, digits⟩ .none .none)
    simp only [List.append_nil] at plain
    exact ⟨_, by rw [text, plain], value⟩
  · have point := literal_of_text (.parts ⟨nonempty, digits⟩ (.point after) .none)
    rw [List.append_nil] at point
    exact ⟨_, by rw [text, point], value⟩

theorem write_chars (d : Decimal) : (∃ c cs, d.write = c :: cs ∧ c.isDigit = true) ∧
    ∀ c ∈ d.write, c.isDigit = true ∨ c = '.' := by
  obtain ⟨whole, places, nonempty, digits, after, text, -⟩ := write_parts d
  obtain ⟨c, cs, rfl⟩ := List.exists_cons_of_ne_nil nonempty
  have first : c.isDigit = true := digits c (by simp)
  rcases text with ⟨-, text⟩ | text
  · rw [text]
    exact ⟨⟨c, cs, rfl, first⟩, fun x member => .inl (digits x member)⟩
  · rw [text]
    refine ⟨⟨c, _, rfl, first⟩, fun x member => ?_⟩
    rcases List.mem_append.mp member with digit | point
    · exact .inl (digits x digit)
    · rcases List.mem_cons.mp point with same | digit
      · exact .inr same
      · exact .inl (after x digit)

end Calculator
