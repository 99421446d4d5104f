import Calculator.Proofs.Number.Nearest
import Calculator.Proofs.Operand

/- Which operand a word is. A literal is the number nearest to its exact value, whatever the length of its
   digits and its exponent. -/
namespace Calculator

/-- The exponent is read in full, or so few digits come before it that no more than its start matters. -/
def Literal.Settled (l : Literal) : Prop := |l.power| < 65536 ∨ l.digits.length < 60000

def Literal.exact (l : Literal) : Decimal :=
  ⟨Nat.ofDigitChars 10 l.digits 0, l.power - l.fraction.length⟩

variable {cs : List Char} {word : String}

theorem le_ofDigitChars (cs : List Char) (n : ℕ) : n ≤ Nat.ofDigitChars 10 cs n := by
  induction cs generalizing n with
  | nil => simp
  | cons c cs ih =>
    rw [Nat.ofDigitChars_cons]
    exact le_trans (by omega) (ih _)

theorem exponentValue_cases (cs : List Char) :
    exponentValue cs = Nat.ofDigitChars 10 cs 0 ∨
      65536 ≤ exponentValue cs ∧ 65536 ≤ Nat.ofDigitChars 10 cs 0 := by
  have large (cs : List Char) {n : ℕ} (large : 65536 ≤ n) :
      cs.foldl (fun n c => if n < 65536 then 10 * n + (c.toNat - '0'.toNat) else n) n = n := by
    induction cs with
    | nil => rfl
    | cons c cs ih => simpa [Nat.not_lt.mpr large] using ih
  unfold exponentValue
  generalize 0 = n
  induction cs generalizing n with
  | nil => exact .inl rfl
  | cons c cs ih =>
    rw [List.foldl_cons]
    by_cases small : n < 65536
    · rw [if_pos small, Nat.ofDigitChars_cons]
      exact ih _
    · have reached : 65536 ≤ n := Nat.le_of_not_lt small
      rw [if_neg small, large cs reached]
      exact .inr ⟨reached, reached.trans (le_ofDigitChars _ n)⟩

theorem nearestBits_of_large {d : Decimal} (some : d.digits ≠ 0) (large : 1024 ≤ d.exponent) :
    d.fraction.nearestBits = infinityBits := by
  apply nearestBits_infinite (fraction_den_pos d)
  have one : (1 : ℚ) ≤ d.digits := by exact_mod_cast Nat.pos_of_ne_zero some
  rw [value_fraction]
  calc overflowBound ≤ (2 : ℚ) ^ 1024 := sub_le_self _ (pow_nonneg zero_le_two 970)
    _ ≤ (10 : ℚ) ^ 1024 := pow_le_pow_left₀ zero_le_two (by norm_num) 1024
    _ = (10 : ℚ) ^ ((1024 : ℕ) : ℤ) := (zpow_natCast 10 1024).symm
    _ ≤ (10 : ℚ) ^ d.exponent := zpow_le_zpow_right₀ (by norm_num) large
    _ ≤ d.digits * (10 : ℚ) ^ d.exponent := le_mul_of_one_le_left (by positivity) one

theorem nearestBits_of_small {d : Decimal} {length : ℕ} (below : d.digits < 10 ^ length)
    (small : d.exponent + length < minExponent) : d.fraction.nearestBits = 0 := by
  apply nearestBits_zero (fraction_den_pos d)
  have below : (d.digits : ℚ) < 10 ^ length := by exact_mod_cast below
  have last : minExponent - 1 = -(1075 : ℕ) := rfl
  rw [value_fraction]
  calc d.digits * (10 : ℚ) ^ d.exponent < 10 ^ length * 10 ^ d.exponent := by gcongr
    _ = 10 ^ (d.exponent + length) := by
      rw [← zpow_natCast, ← zpow_add₀ (by norm_num), add_comm]
    _ ≤ 10 ^ (minExponent - 1) := zpow_le_zpow_right₀ (by norm_num) (by omega)
    _ ≤ 2 ^ (minExponent - 1) := by
      rw [last, zpow_neg, zpow_neg, zpow_natCast, zpow_natCast]
      exact inv_anti₀ (pow_pos two_pos 1075) (pow_le_pow_left₀ zero_le_two (by norm_num) 1075)

theorem value_exact_literal (l : Literal) : l.exact.fraction.value = l.value := value_fraction _

theorem nearestBits_far {digits length places : ℕ} (below : digits < 10 ^ length)
    (few : length < 60000) (inside : places ≤ length) (negative : Bool) {n : ℕ} (far : 65536 ≤ n) :
    (⟨digits, (if negative then -n else n : ℤ) - places⟩ : Decimal).fraction.nearestBits =
      if digits = 0 ∨ negative = true then 0 else infinityBits := by
  have least : minExponent = -1074 := rfl
  by_cases zero : digits = 0
  · simp [zero, Fraction.nearestBits, Decimal.fraction, Fraction.scale]
  · cases negative with
    | false =>
      have large : (1024 : ℤ) ≤ n - places := by omega
      simpa [zero] using nearestBits_of_large (d := ⟨digits, n - places⟩) zero large
    | true =>
      have small : (-n - places : ℤ) + length < minExponent := by omega
      simpa using nearestBits_of_small (d := ⟨digits, -n - places⟩) below small

theorem text_digits {l : Literal} (text : l.Text cs) : ∀ c ∈ l.digits, c.isDigit = true := by
  cases text with
  | parts digits places scale =>
    intro c member
    rcases List.mem_append.mp member with whole | after
    · exact digits.2 c whole
    · cases places with
      | none => cases after
      | point all => exact all c after

theorem nearestBits_decimal {l : Literal} (text : l.Text cs) (settled : l.Settled) :
    l.decimal.fraction.nearestBits = l.exact.fraction.nearestBits := by
  rcases exponentValue_cases l.exponent with same | ⟨cut, far⟩
  · rw [Literal.decimal, Literal.exact, Literal.power, same]
    rfl
  · have few : l.digits.length < 60000 := by
      refine settled.resolve_left fun near => ?_
      rw [abs_lt, Literal.power] at near
      split at near <;> omega
    have below := ofDigitChars_lt (text_digits text) 0
    rw [Nat.zero_add, Nat.one_mul] at below
    have inside : l.fraction.length ≤ l.digits.length := by simp [Literal.digits]
    exact (nearestBits_far below few inside l.negativeExponent cut).trans
      (nearestBits_far below few inside l.negativeExponent far).symm

theorem literal_nearest {l : Literal} (text : l.Text cs) (settled : l.Settled) :
    Nearest l.value l.toFloat := by
  have nearest := toFloat_nearest (fraction_den_pos l.exact)
  rw [value_exact_literal] at nearest
  rwa [Literal.toFloat, Fraction.toFloat, nearestBits_decimal text settled]

theorem text_starts {l : Literal} (text : l.Text word.toList) :
    StartsWithDigit word := by
  generalize chars : word.toList = w at text
  cases text with
  | parts digits places scale =>
    obtain ⟨c, cs, rfl⟩ := List.exists_cons_of_ne_nil digits.1
    exact ⟨c, by simp [chars], digits.2 c (by simp)⟩

theorem ofWord_other (digit : ¬ StartsWithDigit word)
    (letter : ¬ StartsWithLetter word) : Expr.ofWord word = .error (.unexpectedToken word) := by
  unfold Expr.ofWord
  split
  · rfl
  · rename_i c cs chars
    have first : c ∈ word.toList.head? := by simp [chars]
    rw [if_neg fun is => digit ⟨c, first, is⟩, if_neg fun is => letter ⟨c, first, is⟩]

theorem ofWord_text {l : Literal} (text : l.Text word.toList) :
    Expr.ofWord word = .ok (.number l.toFloat) := by
  rw [ofWord_of_digit (text_starts text), literal_of_text text]

theorem ofWord_invalid (digit : StartsWithDigit word)
    (none : ∀ l : Literal, ¬ l.Text word.toList) :
    Expr.ofWord word = .error (.invalidNumber word) := by
  have failed : Literal.ofWord? word.toList = .none :=
    Option.eq_none_iff_forall_ne_some.mpr fun l reads => none l (text_of_literal reads)
  rw [ofWord_of_digit digit, failed]

theorem ofWord_number_iff :
    (∃ x, Expr.ofWord word = .ok (.number x)) ↔ ∃ l : Literal, l.Text word.toList := by
  constructor
  · intro number
    obtain ⟨x, read⟩ := number
    by_contra none
    rw [not_exists] at none
    by_cases digit : StartsWithDigit word
    · rw [ofWord_invalid digit none] at read
      cases read
    · by_cases letter : StartsWithLetter word
      · rw [ofWord_letter letter] at read
        cases read
      · rw [ofWord_other digit letter] at read
        cases read
  · intro literal
    obtain ⟨l, text⟩ := literal
    exact ⟨_, ofWord_text text⟩

/-- The words that are numbers are the literals, each the number nearest to its value. Other words that
    start with a digit are no numbers, words that start with a letter are names, and no other word is
    an operand. -/
theorem ofWord_exact (word : String) (column : ℕ) :
    let read := (Expr.ofWord word).mapError (LineError.mk · column)
    ((∃ x, read = .ok (.number x)) ↔ ∃ l : Literal, l.Text word.toList) ∧
    (∀ x (l : Literal), read = .ok (.number x) → l.Text word.toList → l.Settled →
      Nearest l.value x) ∧
    (StartsWithDigit word → (∀ l : Literal, ¬ l.Text word.toList) →
      read = .error ⟨.invalidNumber word, column⟩) ∧
    (StartsWithLetter word → read = .ok (.name word)) ∧
    (¬ StartsWithDigit word → ¬ StartsWithLetter word →
      read = .error ⟨.unexpectedToken word, column⟩) := by
  intro read
  have ok (e : Expr) : read = .ok e ↔ Expr.ofWord word = .ok e := by
    cases found : Expr.ofWord word <;> simp [read, found, Except.mapError]
  have failed {fault : Fault} (found : Expr.ofWord word = .error fault) :
      read = .error ⟨fault, column⟩ := by
    simp [read, found, Except.mapError]
  refine ⟨?_, fun x l number text settled => ?_, fun digit none => failed (ofWord_invalid digit none),
    fun letter => (ok _).mpr (ofWord_letter letter),
    fun digit letter => failed (ofWord_other digit letter)⟩
  · simp only [ok, ofWord_number_iff]
  · rw [ok, ofWord_text text] at number
    obtain rfl := Expr.number.inj (Except.ok.inj number)
    exact literal_nearest text settled

/-- A literal halfway between two numbers, and a word of each of the other kinds. -/
theorem ofWord_exact_halfway :
    (∃ x, (Expr.ofWord "9007199254740993").mapError (LineError.mk · 1) = .ok (.number x) ∧
      Nearest 9007199254740993 x) ∧
    (Expr.ofWord "1_0").mapError (LineError.mk · 4) = .error ⟨.invalidNumber "1_0", 4⟩ ∧
    (Expr.ofWord "inf").mapError (LineError.mk · 1) = .ok (.name "inf") ∧
    (Expr.ofWord "").mapError (LineError.mk · 2) = .error ⟨.unexpectedToken "", 2⟩ := by
  let l : Literal := ⟨"9007199254740993".toList, [], false, []⟩
  have text : l.Text "9007199254740993".toList := text_of_literal (by decide)
  have value : l.value = 9007199254740993 := by
    simp [l, Literal.value, Literal.digits, Literal.power]
    rfl
  have settled : l.Settled := .inl (by simp [l, Literal.power])
  obtain ⟨number, nearest, -⟩ := ofWord_exact "9007199254740993" 1
  obtain ⟨x, read⟩ := number.mpr ⟨l, text⟩
  have none (l : Literal) : ¬ l.Text "1_0".toList := by
    intro text
    have failed : Literal.ofWord? "1_0".toList = .none := by decide
    rw [literal_of_text text] at failed
    cases failed
  have digit : StartsWithDigit "1_0" := ⟨'1', by decide, by decide⟩
  have letter : StartsWithLetter "inf" := ⟨'i', by decide, by decide⟩
  have empty (p : Char → Bool) : ¬ ∃ c ∈ "".toList.head?, p c = true := by simp
  exact ⟨⟨x, read, value ▸ nearest x l read text settled⟩,
    (ofWord_exact "1_0" 4).2.2.1 digit none, (ofWord_exact "inf" 1).2.2.2.1 letter,
    (ofWord_exact "" 2).2.2.2.2 (empty _) (empty _)⟩

end Calculator
