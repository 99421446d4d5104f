/- Tokens of a line of arithmetic and the places where they stand.
   Offsets count the bytes of the line in UTF-8 from 0, columns count the same bytes from 1. -/
namespace Calculator

inductive Token where
  | plus
  | minus
  | star
  | slash
  | equals
  | openParen
  | closeParen
  | word (text : String)
  /-- A run of blanks; it separates tokens and never stands among the tokens of a line. -/
  | blank
  deriving DecidableEq, Repr

def Token.lexeme : Token → String
  | .plus => "+"
  | .minus => "-"
  | .star => "*"
  | .slash => "/"
  | .equals => "="
  | .openParen => "("
  | .closeParen => ")"
  | .word text => text
  | .blank => ""

structure Placed where
  token : Token
  offset : Nat
  deriving DecidableEq, Repr

def Placed.column (t : Placed) : Nat := t.offset + 1

def Placed.stop (t : Placed) : Nat := t.offset + t.token.lexeme.utf8ByteSize

def columnAfter (ts : List Placed) : Nat :=
  match ts.getLast? with
  | none => 1
  | some t => t.stop + 1

end Calculator
