import Calculator.Number.Binary64

/- Decimals: an integer times a power of ten, written in positional notation.
   The two decimals that stand for a binary64 magnitude are the nearest one of a fixed number of
   places and the shortest one that reads back. -/
namespace Calculator

structure Decimal where
  digits : Nat
  exponent : Int
  deriving DecidableEq, Repr

def Decimal.fraction (d : Decimal) : Fraction := Fraction.scale ⟨d.digits, 1⟩ 10 d.exponent

/-- Positional notation, with a point and `-exponent` places where the exponent is negative. -/
def Decimal.write (d : Decimal) : List Char :=
  if 0 ≤ d.exponent then
    Nat.toDigits 10 d.digits ++ List.replicate d.exponent.toNat '0'
  else
    let places := (-d.exponent).toNat
    Nat.toDigits 10 (d.digits / Nat.pow 10 places) ++
      '.' :: (Nat.toDigits 10 (d.digits % Nat.pow 10 places)).leftpad places '0'

def Decimal.fixed (places : Nat) (mantissa : Nat) (exponent : Int) : Decimal :=
  ⟨((magnitude mantissa exponent).scale 10 places).round, -places⟩

/-- The decimal equal to a magnitude; a half is five tenths. -/
def Decimal.exact (mantissa : Nat) (exponent : Int) : Decimal :=
  if 0 ≤ exponent then ⟨mantissa * Nat.pow 2 exponent.toNat, 0⟩
  else ⟨mantissa * Nat.pow 5 (-exponent).toNat, exponent⟩

/-- The multiple of a power of ten that rounds to the same binary64 number as the fraction does.
    Only the neighbours of the fraction are tried; of two the nearer is taken, halfway the upper. -/
def Decimal.onGrid? (x : Fraction) (exponent : Int) : Option Decimal :=
  let y := x.scale 10 (-exponent)
  let below : Decimal := ⟨y.floor, exponent⟩
  let above : Decimal := ⟨y.floor + 1, exponent⟩
  match below.fraction.nearestBits == x.nearestBits, above.fraction.nearestBits == x.nearestBits with
  | true, true => some (if 2 * (y.num % y.den) < y.den then below else above)
  | true, false => some below
  | false, true => some above
  | false, false => none

def Decimal.coarsest? (x : Fraction) : Nat → Int → Option Decimal
  | 0, _ => none
  | tries + 1, exponent =>
    (Decimal.onGrid? x exponent).or (Decimal.coarsest? x tries (exponent - 1))

def Fraction.decimalBound (x : Fraction) : Int :=
  (Nat.toDigits 10 x.num).length - (Nat.toDigits 10 x.den).length + 1

/-- The decimal of fewest digits that reads back as the magnitude. Seventeen digits always suffice,
    which the twenty grids below the bound cover. -/
def Decimal.shortest (mantissa : Nat) (exponent : Int) : Decimal :=
  if mantissa = 0 then ⟨0, 0⟩
  else
    let x := magnitude mantissa exponent
    (Decimal.coarsest? x 20 x.decimalBound).getD (Decimal.exact mantissa exponent)

end Calculator
