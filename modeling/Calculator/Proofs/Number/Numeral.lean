import Calculator.Proofs.Number.Sign
import Calculator.Proofs.Operand

/- Texts that stand for numbers, and how they are read. They are more than the words that are operands: a
   sign may come first, the digits may all come after the point, and infinities and the NaN have names.
   Every number is read back from the text in which it is written in full. -/
namespace Calculator

/-- Digits with or without a point; they may be missing on one side of it. -/
def Literal.ofNumeral? (cs : List Char) : Option Literal :=
  let whole := cs.takeWhile Char.isDigit
  let (fraction, rest) := fractionPart (cs.dropWhile Char.isDigit)
  if whole = [] ∧ fraction = [] then none
  else (exponentPart? rest).map fun (negative, exponent) => ⟨whole, fraction, negative, exponent⟩

def readUnsigned? (cs : List Char) : Option Float :=
  match cs.map Char.toLower with
  | ['n', 'a', 'n'] => some (0 / 0)
  | ['i', 'n', 'f'] | ['i', 'n', 'f', 'i', 'n', 'i', 't', 'y'] => some (1 / 0)
  | _ => (Literal.ofNumeral? cs).map Literal.toFloat

def readNumber? : List Char → Option Float
  | '-' :: cs => (readUnsigned? cs).map (-·)
  | '+' :: cs => readUnsigned? cs
  | cs => readUnsigned? cs

variable {x : Float} {cs : List Char}

theorem numeral_of_word {literal : Literal} (read : Literal.ofWord? cs = some literal) :
    Literal.ofNumeral? cs = some literal := by
  simp only [Literal.ofWord?] at read
  split at read
  · cases read
  · rename_i some
    simp only [Literal.ofNumeral?]
    rw [if_neg fun none => some none.1]
    exact read

theorem toLower_of_isDigit {c : Char} (digit : c.isDigit = true) : c.toLower = c := by
  have code := code_of_isDigit digit
  unfold Char.toLower
  apply dif_neg
  rw [UInt32.le_iff_toNat_le]
  intro upper
  have large : 65 ≤ c.toNat := upper.1
  omega

theorem readUnsigned_digit {c : Char} (digit : c.isDigit = true) :
    readUnsigned? (c :: cs) = (Literal.ofNumeral? (c :: cs)).map Literal.toFloat := by
  have other {d : Char} (letter : d.isDigit = false) (name : List Char) :
      (c :: cs).map Char.toLower ≠ d :: name := by
    intro same
    rw [List.map_cons, toLower_of_isDigit digit] at same
    rw [(List.cons.inj same).1, letter] at digit
    cases digit
  unfold readUnsigned?
  split
  case h_4 => rfl
  all_goals
    rename_i same
    exact absurd same (other rfl _)

theorem readNumber_plain {c : Char} (plus : c ≠ '+') (minus : c ≠ '-') :
    readNumber? (c :: cs) = readUnsigned? (c :: cs) := by
  unfold readNumber?
  split
  · rename_i same
    exact absurd (List.cons.inj same).1 minus
  · rename_i same
    exact absurd (List.cons.inj same).1 plus
  · rfl

theorem cases_of_le (within : x.toBits.toNat ≤ infinityBits) :
    Binary64.ofFloat x = .infinite false ∨ IsUnsigned x := ofBits_of_le within

theorem unsigned_writeNumber (within : x.toBits.toNat ≤ infinityBits) :
    readUnsigned? (writeNumber x) = some x ∧
    readNumber? (writeNumber x) = readUnsigned? (writeNumber x) := by
  rcases cases_of_le within with infinite | unsigned
  · rw [writeNumber_infinite infinite, eq_infinity infinite]
    exact ⟨rfl, rfl⟩
  · obtain ⟨⟨c, cs, chars, digit⟩, literal, reads, same⟩ := writeNumber_literal unsigned
    rw [chars] at reads ⊢
    refine ⟨?_, readNumber_plain ?_ ?_⟩
    · rw [readUnsigned_digit digit, numeral_of_word reads, Option.map_some, same]
    · rintro rfl
      cases digit
    · rintro rfl
      cases digit

theorem writeNumber_opposite {y : Float} (within : y.toBits.toNat ≤ infinityBits)
    (opposite : Binary64.ofFloat x = (Binary64.ofFloat y).opposite) :
    writeNumber x = '-' :: writeNumber y := by
  unfold writeNumber
  rw [opposite]
  rcases cases_of_le within with infinite | ⟨mantissa, exponent, finite⟩
  · rw [infinite]
    rfl
  · rw [finite]
    rfl

/-- Every number is read back from its text, the infinities and the NaN too. -/
theorem readNumber_writeNumber (x : Float) : readNumber? (writeNumber x) = some x := by
  rcases sign_cases x with nan | ⟨y, within, same | ⟨negative, opposite⟩⟩
  · rw [nan, writeNumber_nan]
    rfl
  · subst same
    obtain ⟨reads, plain⟩ := unsigned_writeNumber within
    rw [plain, reads]
  · obtain ⟨reads, -⟩ := unsigned_writeNumber within
    rw [writeNumber_opposite within opposite, readNumber?, reads, negative]
    rfl

end Calculator
