import Calculator.Number.Text
import Calculator.Proofs.Number.Decimal
import Calculator.Proofs.Number.Nearest

/- The texts of results. A finite number is rounded once, to a multiple of the last place, and its text
   is that multiple; so texts are close to their numbers and in the same order. -/
namespace Calculator

/-- A multiple of the fifth place in positional notation, without leading zeros. -/
inductive FixedText (n : ℕ) : List Char → Prop where
  | parts {whole places : List Char} (digits : IsDigits whole)
      (first : whole.head? = some '0' → whole = ['0'])
      (above : Nat.ofDigitChars 10 whole 0 = n / 10 ^ 5) (five : places.length = 5)
      (all : ∀ c ∈ places, c.isDigit = true) (below : Nat.ofDigitChars 10 places 0 = n % 10 ^ 5) :
      FixedText n (whole ++ '.' :: places)

def decimalValue? : List Char → Option ℚ
  | '-' :: cs => (Literal.ofWord? cs).map fun l => -l.value
  | cs => (Literal.ofWord? cs).map Literal.value

variable {q r : ℚ} {n m : ℕ} {cs : List Char}

theorem toDigits_head (n : ℕ) (zero : (Nat.toDigits 10 n).head? = some '0') :
    Nat.toDigits 10 n = ['0'] := by
  obtain ⟨cs, digits⟩ : ∃ cs, Nat.toDigits 10 n = '0' :: cs := by
    cases digits : Nat.toDigits 10 n with
    | nil => exact absurd digits Nat.toDigits_ne_nil
    | cons c cs =>
      rw [digits] at zero
      exact ⟨cs, by rw [Option.some.inj zero]⟩
  have value : Nat.ofDigitChars 10 cs 0 = n := by
    have := Nat.ofDigitChars_ten_toDigits (n := n)
    rwa [digits, Nat.ofDigitChars_cons] at this
  have below : Nat.ofDigitChars 10 cs 0 < (0 + 1) * 10 ^ cs.length :=
    ofDigitChars_lt (fun c member => digits_isDigit n c (by simp [digits, member])) 0
  rcases Nat.eq_zero_or_pos cs.length with empty | some
  · rw [digits, List.length_eq_zero_iff.mp empty]
  · have short := (Nat.length_toDigits_le_iff (by decide) some).mpr (by omega : n < 10 ^ cs.length)
    simp [digits] at short

theorem write_text (n : ℕ) : FixedText n (⟨n, -(5 : ℕ)⟩ : Decimal).write := by
  have small : n % 10 ^ 5 < 10 ^ 5 := Nat.mod_lt n (by decide)
  have below := ofDigitChars_placeDigits (show 0 < 5 by decide) small 0
  rw [Nat.mul_zero, Nat.zero_add] at below
  rw [write_places n (show 0 < 5 by decide)]
  exact .parts ⟨Nat.toDigits_ne_nil, digits_isDigit _⟩ (toDigits_head _)
    Nat.ofDigitChars_ten_toDigits (placeDigits_length (by decide) small)
    (placeDigits_isDigit _ _) below

theorem write_fixed (mantissa : ℕ) (exponent : ℤ) : ∃ n,
    IsNearest (mantissa * 2 ^ exponent * 10 ^ 5) n ∧
      FixedText n (Decimal.fixed resultPlaces mantissa exponent).write := by
  have near := round_nearest (scale_den_pos (magnitude_den_pos mantissa exponent)
    (show 0 < 10 by decide) (5 : ℕ))
  rw [value_scale _ (by decide), value_magnitude, zpow_natCast, Nat.cast_ofNat] at near
  exact ⟨_, near, write_text _⟩

theorem value_text (text : FixedText n cs) (negative : Bool) :
    decimalValue? ((if negative then ['-'] else []) ++ cs) = some (signed negative (n / 10 ^ 5)) := by
  cases text with
  | parts digits first above five all below =>
    rename_i whole places
    have reads := literal_of_text (.parts digits (.point all) .none)
    rw [List.append_nil] at reads
    have value : (⟨whole, places, false, []⟩ : Literal).value = n / 10 ^ 5 := by
      have parts := Nat.div_add_mod n (10 ^ 5)
      have all : Nat.ofDigitChars 10 (whole ++ places) 0 = n := by
        rw [Nat.ofDigitChars_append, Nat.ofDigitChars_eq_ofDigitChars_zero, above, below, five, parts]
      simp only [Literal.value, Literal.digits, Literal.power, all, five]
      rw [div_eq_mul_inv]
      rfl
    cases negative with
    | true => simp [decimalValue?, reads, value, signed]
    | false =>
      obtain ⟨c, rest, rfl⟩ := List.exists_cons_of_ne_nil digits.1
      have plain : c ≠ '-' := by
        rintro rfl
        cases digits.2 '-' (by simp)
      rw [List.cons_append] at reads
      simp only [Bool.false_eq_true, if_false, List.nil_append, List.cons_append, signed]
      rw [decimalValue?, reads, Option.map_some, value]
      simpa using plain

theorem nearest_mono (one : IsNearest q n) (other : IsNearest r m) (le : q ≤ r) : n ≤ m := by
  by_contra less
  rw [not_le] at less
  have apart : (m : ℚ) + 1 ≤ n := by exact_mod_cast less
  have lower := (abs_le.mp one.1).1
  have upper := (abs_le.mp other.1).2
  obtain rfl : q = r := by linarith
  exact less.ne (nearest_unique other one)

theorem signed_mono {negative negative' : Bool} (nonneg : 0 ≤ q) (nonneg' : 0 ≤ r)
    (one : IsNearest q n) (other : IsNearest r m) (le : signed negative q ≤ signed negative' r) :
    signed negative (n : ℚ) ≤ signed negative' (m : ℚ) := by
  cases negative <;> cases negative' <;> simp only [signed, Bool.false_eq_true, if_true, if_false] at le ⊢
  · exact_mod_cast nearest_mono one other le
  · obtain rfl : q = 0 := by linarith
    obtain rfl : r = 0 := by linarith
    have zero {k : ℕ} (near : IsNearest 0 k) : k = 0 :=
      nearest_unique near (by simpa using nearest_natCast 0)
    rw [zero one, zero other]
    simp
  · have := Nat.cast_nonneg (α := ℚ) n
    have := Nat.cast_nonneg (α := ℚ) m
    linarith
  · have : (m : ℚ) ≤ n := by exact_mod_cast nearest_mono other one (by linarith)
    linarith

theorem writeResult_finite {x : Float} {negative : Bool} {mantissa : ℕ} {exponent : ℤ}
    (finite : Binary64.ofFloat x = .finite negative mantissa exponent) :
    ∃ n text, IsNearest (mantissa * 2 ^ exponent * 10 ^ 5) n ∧ FixedText n text ∧
      writeResult x = (if negative then ['-'] else []) ++ text ∧
      decimalValue? (writeResult x) = some (signed negative (n / 10 ^ 5)) := by
  obtain ⟨n, near, text⟩ := write_fixed mantissa exponent
  have written : writeResult x = (if negative then ['-'] else []) ++
      (Decimal.fixed resultPlaces mantissa exponent).write := by
    rw [writeResult, finite, Binary64.write]
  exact ⟨n, _, near, text, written, by rw [written, value_text text]⟩

theorem signed_div (negative : Bool) (q r : ℚ) : signed negative (q / r) = signed negative q / r := by
  cases negative <;> simp [signed, neg_div]

theorem signed_mul (negative : Bool) (q r : ℚ) : signed negative (q * r) = signed negative q * r := by
  cases negative <;> simp [signed]

theorem signed_sub (negative : Bool) (q r : ℚ) :
    |signed negative q - signed negative r| = |q - r| := by
  cases negative
  · rfl
  · simp only [signed, if_true]
    rw [neg_sub_neg, abs_sub_comm]

/-- A finite number is shown as its nearest multiple of the fifth place, with its sign. What is shown
    is never off by more than half a unit there, and the order of numbers stays. -/
theorem writeResult_exact :
    (∀ x, Binary64.ofFloat x = .nan → writeResult x = ['N', 'a', 'N']) ∧
    (∀ x negative, Binary64.ofFloat x = .infinite negative →
      writeResult x = (if negative then ['-'] else []) ++ ['i', 'n', 'f']) ∧
    (∀ x negative mantissa exponent, Binary64.ofFloat x = .finite negative mantissa exponent →
      ∃ n text, IsNearest (mantissa * 2 ^ exponent * 10 ^ 5) n ∧ FixedText n text ∧
        writeResult x = (if negative then ['-'] else []) ++ text) ∧
    (∀ x v, (Binary64.ofFloat x).value? = some v →
      ∃ shown, decimalValue? (writeResult x) = some shown ∧ |shown - v| ≤ 5 / 10 ^ 6) ∧
    ∀ x y v w shown shown', (Binary64.ofFloat x).value? = some v →
      (Binary64.ofFloat y).value? = some w → decimalValue? (writeResult x) = some shown →
      decimalValue? (writeResult y) = some shown' → v ≤ w → shown ≤ shown' := by
  refine ⟨fun x nan => ?_, fun x negative infinite => ?_, fun x negative m e finite => ?_,
    fun x v value => ?_, fun x y v w shown shown' value value' reads reads' le => ?_⟩
  · rw [writeResult, nan, Binary64.write]
  · rw [writeResult, infinite, Binary64.write]
  · obtain ⟨n, text, near, fixed, written, -⟩ := writeResult_finite finite
    exact ⟨n, text, near, fixed, written⟩
  · obtain ⟨negative, m, e, finite, rfl⟩ := finite_of_value value
    obtain ⟨n, text, near, -, -, reads⟩ := writeResult_finite finite
    refine ⟨_, reads, ?_⟩
    have half := near.1
    rw [signed_sub, abs_sub_comm, abs_le] at *
    constructor <;> linarith
  · obtain ⟨negative, m, e, finite, rfl⟩ := finite_of_value value
    obtain ⟨negative', m', e', finite', rfl⟩ := finite_of_value value'
    obtain ⟨n, -, near, -, -, own⟩ := writeResult_finite finite
    obtain ⟨k, -, near', -, -, own'⟩ := writeResult_finite finite'
    obtain rfl := Option.some.inj (own.symm.trans reads)
    obtain rfl := Option.some.inj (own'.symm.trans reads')
    have scaled : signed negative (m * 2 ^ e * 10 ^ 5) ≤ signed negative' (m' * 2 ^ e' * 10 ^ 5) := by
      rw [signed_mul _ (m * 2 ^ e), signed_mul _ (m' * 2 ^ e')]
      have nonneg : (0 : ℚ) ≤ 10 ^ 5 := by norm_num
      exact mul_le_mul_of_nonneg_right le nonneg
    rw [signed_div, signed_div]
    gcongr
    exact signed_mono (by positivity) (by positivity) near near' scaled

/-- Two numbers halfway between multiples of the last place, a zero with its sign, and numbers that are
    not finite. -/
theorem writeResult_exact_tie :
    writeResult (.ofBits 0x7FF8000000000000) = ['N', 'a', 'N'] ∧
    writeResult (.ofBits 0xFFF0000000000000) = ['-', 'i', 'n', 'f'] ∧
    (∃ n text, IsNearest ((4503599627370496 : ℕ) * 2 ^ (-58 : ℤ) * 10 ^ 5) n ∧ FixedText n text ∧
      writeResult (.ofBits 0x3F90000000000000) = text) ∧
    (∃ shown, decimalValue? (writeResult (.ofBits 0x8000000000000000)) = some shown ∧
      |shown - 0| ≤ 5 / 10 ^ 6) ∧
    ∃ shown shown', decimalValue? (writeResult (.ofBits 0x3F90000000000000)) = some shown ∧
      decimalValue? (writeResult (.ofBits 0x3FA8000000000000)) = some shown' ∧ shown ≤ shown' := by
  obtain ⟨nan, infinite, finite, close, order⟩ := writeResult_exact
  have none : Binary64.ofFloat (.ofBits 0x7FF8000000000000) = .nan := by
    rw [Binary64.ofFloat, toBits_ofBits ⟨fun _ => by decide⟩]
    decide
  have large : Binary64.ofFloat (.ofBits 0xFFF0000000000000) = .infinite true := by
    rw [Binary64.ofFloat, toBits_ofBits ⟨fun _ => by decide⟩]
    decide
  have low : Binary64.ofFloat (.ofBits 0x3F90000000000000) = .finite false 4503599627370496 (-58) := by
    rw [Binary64.ofFloat, toBits_ofBits (valid_of_le (by decide))]
    decide
  have high : Binary64.ofFloat (.ofBits 0x3FA8000000000000) = .finite false 6755399441055744 (-57) := by
    rw [Binary64.ofFloat, toBits_ofBits (valid_of_le (by decide))]
    decide
  have zero : Binary64.ofFloat (.ofBits 0x8000000000000000) = .finite true 0 minExponent := by
    rw [Binary64.ofFloat, toBits_ofBits ⟨fun top => absurd top (by decide)⟩]
    decide
  have lowValue : (Binary64.ofFloat (.ofBits 0x3F90000000000000)).value? = some (1 / 64) := by
    rw [low]
    norm_num [Binary64.value?, signed]
  have highValue : (Binary64.ofFloat (.ofBits 0x3FA8000000000000)).value? = some (3 / 64) := by
    rw [high]
    norm_num [Binary64.value?, signed]
  have zeroValue : (Binary64.ofFloat (.ofBits 0x8000000000000000)).value? = some 0 := by
    rw [zero]
    simp [Binary64.value?, signed]
  obtain ⟨shown, reads, -⟩ := close _ _ lowValue
  obtain ⟨shown', reads', -⟩ := close _ _ highValue
  exact ⟨nan _ none, infinite _ _ large, finite _ _ _ _ low, close _ _ zeroValue, shown, shown', reads,
    reads', order _ _ _ _ _ _ lowValue highValue reads reads' (by norm_num)⟩

end Calculator
