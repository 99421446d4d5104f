import Calculator.Expr
import Calculator.LineError
import Calculator.Number.Literal

/- Words as operands: a word that starts with a digit has to be a literal, one that starts with a
   letter is a name, and no other word is an operand. Digits and letters are those of ASCII. -/
namespace Calculator

def Expr.ofWord (word : String) : Except Fault Expr :=
  match word.toList with
  | [] => .error (.unexpectedToken word)
  | c :: cs =>
    if c.isDigit then
      match Literal.ofWord? (c :: cs) with
      | some literal => .ok (.number literal.toFloat)
      | none => .error (.invalidNumber word)
    else if c.isAlpha then .ok (.name word)
    else .error (.unexpectedToken word)

end Calculator
