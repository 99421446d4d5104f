import Calculator.Number.Fraction

/- Binary64 numbers taken apart, and the one that is nearest to a fraction.
   A finite number is a mantissa times a power of two; its bits without the sign, read as an
   integer, count the finite magnitudes in order, and infinity comes just after the last one. -/
namespace Calculator

inductive Binary64 where
  | nan
  | infinite (negative : Bool)
  | finite (negative : Bool) (mantissa : Nat) (exponent : Int)
  deriving DecidableEq, Repr

def minExponent : Int := -1074

/-- The 53rd bit, which the mantissas of normal numbers have and their bits leave out. -/
def hiddenBit : Nat := 0x10000000000000

def infinityBits : Nat := 0x7FF0000000000000

def Binary64.ofBits (bits : Nat) : Binary64 :=
  let negative := decide (0x8000000000000000 ≤ bits)
  let field : Nat := bits / hiddenBit % 2048
  let fraction : Nat := bits % hiddenBit
  if field = 2047 then
    if fraction = 0 then .infinite negative else .nan
  else if field = 0 then .finite negative fraction minExponent
  else .finite negative (hiddenBit + fraction) (minExponent + field - 1)

def Binary64.ofFloat (x : Float) : Binary64 := .ofBits x.toBits.toNat

def magnitude (mantissa : Nat) (exponent : Int) : Fraction :=
  Fraction.scale ⟨mantissa, 1⟩ 2 exponent

/-- The bits of the number nearest to a fraction, ties to even: the fraction is rounded to a
    multiple of the power of two that leaves 53 bits, or of the smallest one. -/
def Fraction.nearestBits (x : Fraction) : Nat :=
  if x.num = 0 then 0
  else
    let exponent := max minExponent (x.log2 - 52)
    let mantissa := (x.scale 2 (-exponent)).round
    min infinityBits ((exponent - minExponent).toNat * hiddenBit + mantissa)

def Fraction.toFloat (x : Fraction) : Float := Float.ofBits (UInt64.ofNat x.nearestBits)

end Calculator
