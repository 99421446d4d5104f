import Calculator.Operand
import Calculator.Proofs.Number.Decimal
import Calculator.Proofs.Spelling

/- Which operands the words of a line give, and which operands are read back from their text: the
   names that start with a letter, and the numbers that are finite and have no sign. -/
namespace Calculator

def StartsWithDigit (text : String) : Prop := ∃ c ∈ text.toList.head?, c.isDigit = true

def StartsWithLetter (text : String) : Prop := ∃ c ∈ text.toList.head?, c.isAlpha = true

def IsUnsigned (x : Float) : Prop :=
  ∃ mantissa exponent, Binary64.ofFloat x = .finite false mantissa exponent

theorem code_of_isDigit {c : Char} (digit : c.isDigit = true) : 48 ≤ c.toNat ∧ c.toNat ≤ 57 :=
  Char.isDigit_iff_toNat.mp digit

theorem code_of_isAlpha {c : Char} (letter : c.isAlpha = true) : 65 ≤ c.toNat ∧ c.toNat ≤ 122 := by
  unfold Char.isAlpha Char.isUpper Char.isLower at letter
  simp only [Bool.or_eq_true, Bool.and_eq_true, decide_eq_true_eq, ge_iff_le,
    UInt32.le_iff_toNat_le] at letter
  simp at letter
  omega

theorem not_isDigit_of_isAlpha {c : Char} (letter : c.isAlpha = true) : c.isDigit = false := by
  rw [Bool.eq_false_iff]
  intro digit
  have := code_of_isAlpha letter
  have := code_of_isDigit digit
  omega

theorem ofWord_letter {word : String} (letter : StartsWithLetter word) :
    Expr.ofWord word = .ok (.name word) := by
  obtain ⟨c, first, letter⟩ := letter
  unfold Expr.ofWord
  split
  · rename_i empty
    simp [empty] at first
  · rename_i d cs chars
    simp only [chars, List.head?_cons, Option.mem_def, Option.some.injEq] at first
    subst first
    simp [not_isDigit_of_isAlpha letter, letter]

theorem ofWord_of_digit {word : String} (digit : StartsWithDigit word) :
    Expr.ofWord word = match Literal.ofWord? word.toList with
      | some literal => .ok (.number literal.toFloat)
      | none => .error (.invalidNumber word) := by
  obtain ⟨c, first, digit⟩ := digit
  unfold Expr.ofWord
  split
  · rename_i empty
    simp [empty] at first
  · rename_i d cs chars
    obtain rfl : d = c := by simpa [chars] using first
    rw [if_pos digit]
    exact chars ▸ rfl

theorem ofWord_ok {word : String} {e : Expr} (read : Expr.ofWord word = .ok e) :
    (∃ literal : Literal, e = .number literal.toFloat) ∨ e = .name word ∧ StartsWithLetter word := by
  unfold Expr.ofWord at read
  split at read
  · cases read
  · rename_i c cs chars
    split at read
    · split at read
      · rename_i literal reads
        exact .inl ⟨literal, (Except.ok.inj read).symm⟩
      · cases read
    · split at read
      · rename_i letter
        exact .inr ⟨(Except.ok.inj read).symm, c, by simp [chars], letter⟩
      · cases read

theorem ofWord_error {word : String} {fault : Fault} (failed : Expr.ofWord word = .error fault) :
    fault = .unexpectedToken word ∨ fault = .invalidNumber word := by
  unfold Expr.ofWord at failed
  split at failed
  · exact .inl (Except.error.inj failed).symm
  · split at failed
    · split at failed
      · cases failed
      · exact .inr (Except.error.inj failed).symm
    · split at failed
      · cases failed
      · exact .inl (Except.error.inj failed).symm

theorem ofWord_name_iff {word text : String} :
    Expr.ofWord word = .ok (.name text) ↔ word = text ∧ StartsWithLetter word := by
  constructor
  · intro read
    rcases ofWord_ok read with ⟨literal, no⟩ | ⟨same, letter⟩
    · cases no
    · exact ⟨(Expr.name.inj same).symm, letter⟩
  · intro starts
    obtain ⟨rfl, letter⟩ := starts
    exact ofWord_letter letter

theorem literal_toFloat (literal : Literal) :
    Binary64.ofFloat literal.toFloat = .infinite false ∨ IsUnsigned literal.toFloat := by
  rw [IsUnsigned, Literal.toFloat, ofFloat_toFloat]
  exact ofBits_of_le (nearestBits_le _)

theorem write_wordChars (d : Decimal) : ∀ c ∈ d.write, isWordChar c = true := by
  intro c member
  rcases (write_chars d).2 c member with digit | rfl
  · exact isWordChar_of_isDigit digit
  · rfl

theorem writeNumber_finite {x : Float} {mantissa : Nat} {exponent : Int}
    (finite : Binary64.ofFloat x = .finite false mantissa exponent) :
    writeNumber x = (Decimal.shortest mantissa exponent).write := by
  simp [writeNumber, finite, Binary64.write]

theorem writeNumber_infinite {x : Float} (infinite : Binary64.ofFloat x = .infinite false) :
    writeNumber x = ['i', 'n', 'f'] := by
  simp [writeNumber, infinite, Binary64.write]

theorem writeNumber_literal {x : Float} (unsigned : IsUnsigned x) :
    (∃ c cs, writeNumber x = c :: cs ∧ c.isDigit = true) ∧
    ∃ literal, Literal.ofWord? (writeNumber x) = some literal ∧ literal.toFloat = x := by
  obtain ⟨mantissa, exponent, finite⟩ := unsigned
  obtain ⟨literal, reads, value⟩ := write_reads (Decimal.shortest mantissa exponent)
  rw [writeNumber_finite finite]
  refine ⟨(write_chars _).1, literal, reads, ?_⟩
  apply toFloat_eq
  rw [← magnitude_toFloat finite, ← shortest_nearestBits]
  exact nearestBits_congr (fraction_den_pos _) (fraction_den_pos _) value

theorem ofWord_writeNumber {x : Float} (unsigned : IsUnsigned x) :
    Expr.ofWord (String.ofList (writeNumber x)) = .ok (.number x) := by
  obtain ⟨⟨c, cs, chars, digit⟩, literal, reads, same⟩ := writeNumber_literal unsigned
  have starts : StartsWithDigit (String.ofList (writeNumber x)) := ⟨c, by simp [chars], digit⟩
  rw [ofWord_of_digit starts, String.toList_ofList, reads, ← same]

theorem writeNumber_isWord {x : Float}
    (number : Binary64.ofFloat x = .infinite false ∨ IsUnsigned x) :
    IsWord (String.ofList (writeNumber x)) := by
  rw [isWord_iff, String.toList_ofList]
  rcases number with infinite | ⟨mantissa, exponent, finite⟩
  · rw [writeNumber_infinite infinite]
    exact .inl ⟨by simp, by simp [isWordChar, isBlank, symbol?]⟩
  · obtain ⟨⟨c, cs, chars, -⟩, -⟩ := write_chars (Decimal.shortest mantissa exponent)
    rw [writeNumber_finite finite]
    exact .inl ⟨by simp [chars], write_wordChars _⟩

theorem ofWord_writeNumber_iff {x : Float} :
    Expr.ofWord (String.ofList (writeNumber x)) = .ok (.number x) ↔ IsUnsigned x := by
  refine ⟨fun read => ?_, ofWord_writeNumber⟩
  rcases ofWord_ok read with ⟨literal, same⟩ | ⟨no, -⟩
  · obtain rfl := Expr.number.inj same
    rcases literal_toFloat literal with infinite | unsigned
    · rw [writeNumber_infinite infinite, ofWord_letter ⟨'i', by simp, by decide⟩] at read
      cases read
    · exact unsigned
  · cases no

end Calculator
