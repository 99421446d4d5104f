import Calculator.Number.Literal
import Mathlib.Algebra.Field.Rat
import Mathlib.Data.List.TakeWhile

/- The texts and the exact values of literals. A word is read as a literal exactly if it is a text of
   that literal. -/
namespace Calculator

def IsDigits (cs : List Char) : Prop := cs ≠ [] ∧ ∀ c ∈ cs, c.isDigit = true

inductive FractionText : List Char → List Char → Prop where
  | none : FractionText [] []
  | point {digits : List Char} (all : ∀ c ∈ digits, c.isDigit = true) :
      FractionText digits ('.' :: digits)

inductive ExponentText : Bool → List Char → List Char → Prop where
  | none : ExponentText false [] []
  | plain {letter : Char} {digits : List Char} (mark : letter = 'e' ∨ letter = 'E')
      (some : IsDigits digits) : ExponentText false digits (letter :: digits)
  | plus {letter : Char} {digits : List Char} (mark : letter = 'e' ∨ letter = 'E')
      (some : IsDigits digits) : ExponentText false digits (letter :: '+' :: digits)
  | minus {letter : Char} {digits : List Char} (mark : letter = 'e' ∨ letter = 'E')
      (some : IsDigits digits) : ExponentText true digits (letter :: '-' :: digits)

inductive Literal.Text : Literal → List Char → Prop where
  | parts {whole fraction exponent point power : List Char} {negative : Bool}
      (digits : IsDigits whole) (places : FractionText fraction point)
      (scale : ExponentText negative exponent power) :
      Literal.Text ⟨whole, fraction, negative, exponent⟩ (whole ++ (point ++ power))

def Literal.digits (l : Literal) : List Char := l.whole ++ l.fraction

def Literal.power (l : Literal) : ℤ :=
  if l.negativeExponent then -Nat.ofDigitChars 10 l.exponent 0 else Nat.ofDigitChars 10 l.exponent 0

def Literal.value (l : Literal) : ℚ :=
  Nat.ofDigitChars 10 l.digits 0 * 10 ^ (l.power - l.fraction.length)

variable {cs digits fraction point power : List Char} {negative : Bool}

theorem digits_run (all : ∀ c ∈ digits, c.isDigit = true)
    (stop : ∀ c ∈ cs.head?, c.isDigit = false) :
    (digits ++ cs).takeWhile Char.isDigit = digits ∧ (digits ++ cs).dropWhile Char.isDigit = cs := by
  have ends : cs.takeWhile Char.isDigit = [] ∧ cs.dropWhile Char.isDigit = cs := by
    cases cs with
    | nil => exact ⟨rfl, rfl⟩
    | cons c cs => simp [stop c rfl]
  rw [List.takeWhile_append_of_pos all, List.dropWhile_append_of_pos all, ends.1, ends.2]
  simp

theorem ofDigitChars_lt (all : ∀ c ∈ cs, c.isDigit = true) (n : ℕ) :
    Nat.ofDigitChars 10 cs n < (n + 1) * 10 ^ cs.length := by
  induction cs generalizing n with
  | nil => simp
  | cons c cs ih =>
    have digit : c.toNat ≤ '9'.toNat := (Char.isDigit_iff_toNat.mp (all c (by simp))).2
    have tail := ih (fun x member => all x (List.mem_cons_of_mem c member))
      (10 * n + (c.toNat - '0'.toNat))
    have nine : '9'.toNat = '0'.toNat + 9 := rfl
    rw [Nat.ofDigitChars_cons]
    calc Nat.ofDigitChars 10 cs (10 * n + (c.toNat - '0'.toNat))
        < (10 * n + (c.toNat - '0'.toNat) + 1) * 10 ^ cs.length := tail
      _ ≤ (n + 1) * 10 * 10 ^ cs.length := Nat.mul_le_mul_right _ (by omega)
      _ = (n + 1) * 10 ^ (c :: cs).length := by rw [List.length_cons, Nat.pow_succ', Nat.mul_assoc]

theorem exponentDigits_iff : exponentDigits? cs = some digits ↔ cs = digits ∧ IsDigits digits := by
  unfold exponentDigits? IsDigits
  simp only [List.all_eq_true, Option.ite_none_right_eq_some, Option.some.injEq]
  constructor
  · intro read
    obtain ⟨some, rfl⟩ := read
    exact ⟨rfl, some⟩
  · intro read
    obtain ⟨rfl, some⟩ := read
    exact ⟨some, rfl⟩

theorem exponentPart_of_text (scale : ExponentText negative digits cs) :
    exponentPart? cs = some (negative, digits) := by
  cases scale with
  | none => rfl
  | plus mark some | minus mark some =>
    simp [exponentPart?, mark, exponentDigits_iff.mpr ⟨rfl, some⟩]
  | plain mark some =>
    obtain ⟨d, ds, rfl⟩ := List.exists_cons_of_ne_nil some.1
    have digit := some.2 d (by simp)
    have unsigned (sign : Char) (other : sign.isDigit = false) (cs : List Char) :
        d :: ds ≠ sign :: cs := by
      rintro same
      obtain rfl := (List.cons.inj same).1
      rw [digit] at other
      cases other
    rw [exponentPart?, if_pos mark, exponentDigits_iff.mpr ⟨rfl, some⟩]
    · rfl
    · exact unsigned '-' rfl
    · exact unsigned '+' rfl

theorem text_of_exponentPart (read : exponentPart? cs = some (negative, digits)) :
    ExponentText negative digits cs := by
  cases cs with
  | nil =>
    obtain ⟨rfl, rfl⟩ := Prod.mk.inj (Option.some.inj read)
    exact .none
  | cons letter rest =>
    unfold exponentPart? at read
    dsimp only at read
    split at read
    · rename_i mark
      have taken {sign : Bool} {cs : List Char}
          (read : (exponentDigits? cs).map (sign, ·) = some (negative, digits)) :
          negative = sign ∧ cs = digits ∧ IsDigits digits := by
        obtain ⟨ds, some, same⟩ := Option.map_eq_some_iff.mp read
        obtain ⟨rfl, rfl⟩ := Prod.mk.inj same
        exact ⟨rfl, exponentDigits_iff.mp some⟩
      split at read <;> obtain ⟨rfl, rfl, some⟩ := taken read
      · exact .minus mark some
      · exact .plus mark some
      · exact .plain mark some
    · cases read

theorem exponent_head (scale : ExponentText negative digits power) :
    ∀ c ∈ power.head?, c.isDigit = false ∧ c ≠ '.' := by
  cases scale with
  | none => simp
  | plain mark some | plus mark some | minus mark some =>
    intro c first
    obtain rfl := Option.some.inj first
    rcases mark with rfl | rfl <;> decide

theorem fractionPart_of_text (places : FractionText fraction point)
    (stop : ∀ c ∈ power.head?, c.isDigit = false ∧ c ≠ '.') :
    fractionPart (point ++ power) = (fraction, power) := by
  cases places with
  | none =>
    unfold fractionPart
    split
    · exact absurd rfl (stop '.' (by simp_all)).2
    · rfl
  | point all =>
    obtain ⟨taken, left⟩ := digits_run all fun c first => (stop c first).1
    rw [List.cons_append, fractionPart, taken, left]

theorem text_of_fractionPart (cs : List Char) :
    ∃ point, FractionText (fractionPart cs).1 point ∧ point ++ (fractionPart cs).2 = cs := by
  unfold fractionPart
  split
  · rename_i cs
    have all : ∀ c ∈ cs.takeWhile Char.isDigit, c.isDigit = true :=
      fun c member => List.mem_takeWhile_imp member
    exact ⟨_, .point all, by simp⟩
  · exact ⟨[], .none, rfl⟩

theorem literal_of_text {w : List Char} {l : Literal} (text : l.Text w) :
    Literal.ofWord? w = some l := by
  cases text with
  | parts digits places scale =>
    rename_i whole fraction exponent point power negative
    have head := exponent_head scale
    have stop : ∀ c ∈ (point ++ power).head?, c.isDigit = false := by
      cases places with
      | none => exact fun c first => (head c first).1
      | point all =>
        intro c first
        obtain rfl := Option.some.inj first
        rfl
    obtain ⟨taken, left⟩ := digits_run digits.2 stop
    simp [Literal.ofWord?, taken, left, fractionPart_of_text places head,
      exponentPart_of_text scale, digits.1]

theorem text_of_literal {w : List Char} {l : Literal} (read : Literal.ofWord? w = some l) :
    l.Text w := by
  simp only [Literal.ofWord?] at read
  obtain ⟨point, places, tail⟩ := text_of_fractionPart (w.dropWhile Char.isDigit)
  split at read
  · cases read
  · rename_i some
    obtain ⟨⟨negative, exponent⟩, scale, rfl⟩ := Option.map_eq_some_iff.mp read
    have parts := Literal.Text.parts ⟨some, fun c member => List.mem_takeWhile_imp member⟩ places
      (text_of_exponentPart scale)
    rwa [tail, List.takeWhile_append_dropWhile] at parts

/-- The digits after a point may be missing, those of an exponent may not. -/
example : Literal.ofWord? "1.e5".toList = some ⟨['1'], [], false, ['5']⟩ ∧
    Literal.ofWord? "1e-".toList = none := by decide

end Calculator
