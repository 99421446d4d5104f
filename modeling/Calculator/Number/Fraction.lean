/- Non-negative fractions of naturals, their rounding to an integer and their binary logarithm. -/
namespace Calculator

structure Fraction where
  num : Nat
  den : Nat
  deriving DecidableEq, Repr

def Fraction.scale (x : Fraction) (base : Nat) (power : Int) : Fraction :=
  ⟨x.num * Nat.pow base power.toNat, x.den * Nat.pow base (-power).toNat⟩

def Fraction.floor (x : Fraction) : Nat := x.num / x.den

/-- The nearest integer; a half goes to the even neighbour. -/
def Fraction.round (x : Fraction) : Nat :=
  let rest := 2 * (x.num % x.den)
  if rest < x.den then x.floor
  else if x.den < rest then x.floor + 1
  else x.floor + x.floor % 2

/-- The integer part of the binary logarithm of a positive fraction: the difference of the two
    bit lengths, or one less. -/
def Fraction.log2 (x : Fraction) : Int :=
  let guess := (x.num.log2 : Int) - x.den.log2
  let y := x.scale 2 (-guess)
  if y.den ≤ y.num then guess else guess - 1

end Calculator
