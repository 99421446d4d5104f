/- The characters with the Unicode property White_Space, by which a line counts as blank. The blanks
   between tokens are fewer. -/
namespace Calculator

/-- The ranges of code points with the property, both ends included. -/
def whiteSpaceRanges : List (Nat × Nat) :=
  [(0x0009, 0x000D), (0x0020, 0x0020), (0x0085, 0x0085), (0x00A0, 0x00A0), (0x1680, 0x1680),
    (0x2000, 0x200A), (0x2028, 0x2029), (0x202F, 0x202F), (0x205F, 0x205F), (0x3000, 0x3000)]

def isWhiteSpace (c : Char) : Bool :=
  whiteSpaceRanges.any fun (first, last) => first ≤ c.toNat && c.toNat ≤ last

def isBlankLine (line : String) : Bool := line.toList.all isWhiteSpace

end Calculator
