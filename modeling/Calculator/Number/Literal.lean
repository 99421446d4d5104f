import Calculator.Number.Decimal

/- Decimal literals: digits, perhaps a point and more digits, perhaps an exponent. -/
namespace Calculator

structure Literal where
  whole : List Char
  fraction : List Char
  negativeExponent : Bool
  exponent : List Char
  deriving DecidableEq, Repr

def exponentDigits? (cs : List Char) : Option (List Char) :=
  if cs ≠ [] ∧ cs.all Char.isDigit then some cs else none

/-- The exponent part of a literal: its sign and digits. No exponent reads as no digits. -/
def exponentPart? : List Char → Option (Bool × List Char)
  | [] => some (false, [])
  | c :: cs =>
    if c = 'e' ∨ c = 'E' then
      match cs with
      | '-' :: cs => (exponentDigits? cs).map (true, ·)
      | '+' :: cs => (exponentDigits? cs).map (false, ·)
      | cs => (exponentDigits? cs).map (false, ·)
    else none

def fractionPart : List Char → List Char × List Char
  | '.' :: cs => (cs.takeWhile Char.isDigit, cs.dropWhile Char.isDigit)
  | cs => ([], cs)

def Literal.ofWord? (word : List Char) : Option Literal :=
  let whole := word.takeWhile Char.isDigit
  let (fraction, rest) := fractionPart (word.dropWhile Char.isDigit)
  if whole = [] then none
  else (exponentPart? rest).map fun (negative, exponent) => ⟨whole, fraction, negative, exponent⟩

/-- The value of exponent digits. It stops growing at 65536, where any literal of fewer than 60000
    digits is zero or infinite already. -/
def exponentValue (digits : List Char) : Nat :=
  digits.foldl (fun n c => if n < 65536 then 10 * n + (c.toNat - '0'.toNat) else n) 0

def Literal.decimal (l : Literal) : Decimal :=
  let exponent : Int := exponentValue l.exponent
  ⟨Nat.ofDigitChars 10 (l.whole ++ l.fraction) 0,
    (if l.negativeExponent then -exponent else exponent) - l.fraction.length⟩

def Literal.toFloat (l : Literal) : Float := l.decimal.fraction.toFloat

end Calculator
