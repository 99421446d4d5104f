import Calculator.Number.Decimal

/- The two texts of a number: in full, as trees and the journal show it, and with five places, as
   results are shown. Neither uses an exponent; the sign of zero is kept. -/
namespace Calculator

def Binary64.write (decimal : Nat → Int → Decimal) : Binary64 → List Char
  | .nan => ['N', 'a', 'N']
  | .infinite negative => (if negative then ['-'] else []) ++ ['i', 'n', 'f']
  | .finite negative mantissa exponent =>
    (if negative then ['-'] else []) ++ (decimal mantissa exponent).write

def writeNumber (x : Float) : List Char := (Binary64.ofFloat x).write Decimal.shortest

def resultPlaces : Nat := 5

def writeResult (x : Float) : List Char := (Binary64.ofFloat x).write (Decimal.fixed resultPlaces)

end Calculator
