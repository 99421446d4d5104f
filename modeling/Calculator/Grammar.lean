import Calculator.Operand
import Calculator.Token

/- The grammar of lines, as a relation between tokens and trees. Sums and products associate to the
   left, a minus sign stands before a primary only, and a group adds no node. -/
namespace Calculator

inductive Category where
  | expression
  | term
  | factor
  | primary
  deriving DecidableEq, Repr

inductive Sign : Category → Token → BinaryOp → Prop where
  | plus : Sign .expression .plus .add
  | minus : Sign .expression .minus .sub
  | star : Sign .term .star .mul
  | slash : Sign .term .slash .div

inductive Phrase : Category → List Token → Expr → Prop where
  | operand {word : String} {e : Expr} (read : Expr.ofWord word = .ok e) :
      Phrase .primary [.word word] e
  | group {ts : List Token} {e : Expr} (inner : Phrase .expression ts e) :
      Phrase .primary (.openParen :: (ts ++ [.closeParen])) e
  | primary {ts : List Token} {e : Expr} (inner : Phrase .primary ts e) : Phrase .factor ts e
  | negation {ts : List Token} {e : Expr} (inner : Phrase .primary ts e) :
      Phrase .factor (.minus :: ts) (.negation e)
  | factor {ts : List Token} {e : Expr} (inner : Phrase .factor ts e) : Phrase .term ts e
  | product {ts us : List Token} {t : Token} {op : BinaryOp} {l r : Expr}
      (left : Phrase .term ts l) (sign : Sign .term t op)
      (right : Phrase .factor us r) : Phrase .term (ts ++ t :: us) (.binary op l r)
  | term {ts : List Token} {e : Expr} (inner : Phrase .term ts e) : Phrase .expression ts e
  | sum {ts us : List Token} {t : Token} {op : BinaryOp} {l r : Expr}
      (left : Phrase .expression ts l) (sign : Sign .expression t op)
      (right : Phrase .term us r) : Phrase .expression (ts ++ t :: us) (.binary op l r)

inductive LinePhrase : List Token → Expr → Prop where
  | assignment {name : String} {ts : List Token} {e : Expr} (value : Phrase .expression ts e) :
      LinePhrase (.word name :: .equals :: ts) (.assignment name e)
  | expression {ts : List Token} {e : Expr} (plain : ts[1]? ≠ some .equals)
      (whole : Phrase .expression ts e) : LinePhrase ts e

def Token.nest (depth : Nat) : Token → Nat
  | .openParen => depth + 1
  | .closeParen => depth - 1
  | _ => depth

/-- The largest number of parentheses open at any point of a list of tokens. -/
def deepest (depth : Nat) : List Token → Nat
  | [] => depth
  | t :: ts => max depth (deepest (t.nest depth) ts)

end Calculator
