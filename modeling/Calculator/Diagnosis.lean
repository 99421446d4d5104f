import Calculator.Operand
import Calculator.Token

/- What is wrong with a line, told in one pass that builds no tree: it keeps what may come next and
   the number of open parentheses. -/
namespace Calculator

/-- What may come next: an operand with or without a minus sign, an operand without one, or an
    operator. -/
inductive Mode where
  | operand
  | primary
  | operator
  deriving DecidableEq, Repr

/-- The first error of an expression that reaches to the end of the line. -/
def diagnose (column : Nat) : Mode → Nat → List Placed → Option LineError
  | .operator, 0, [] => none
  | .operator, _ + 1, [] => some ⟨.missingCloseParen, column⟩
  | _, _, [] => some ⟨.unexpectedEnd, column⟩
  | .operator, depth, t :: rest =>
    match t.token, depth with
    | .plus, _ | .minus, _ | .star, _ | .slash, _ => diagnose column .operand depth rest
    | .closeParen, depth + 1 => diagnose column .operator depth rest
    | .openParen, _ => some ⟨.unexpectedOpenParen, t.offset + 1⟩
    | _, _ + 1 => some ⟨.missingCloseParen, t.offset + 1⟩
    | token, 0 => some ⟨.trailingTokens token.lexeme, t.offset + 1⟩
  | mode, depth, t :: rest =>
    match t.token, mode with
    | .minus, .operand => diagnose column .primary depth rest
    | .openParen, _ =>
      if depth = 512 then some ⟨.nestedTooDeeply 512, t.offset + 1⟩
      else diagnose column .operand (depth + 1) rest
    | .word text, _ =>
      match Expr.ofWord text with
      | .ok _ => diagnose column .operator depth rest
      | .error fault => some ⟨fault, t.offset + 1⟩
    | token, _ => some ⟨.unexpectedToken token.lexeme, t.offset + 1⟩

def endColumn (ts : List Placed) : Nat :=
  match ts.getLast? with
  | none => 1
  | some t => t.offset + t.token.lexeme.utf8ByteSize + 1

def diagnoseLine (ts : List Placed) : Option LineError :=
  match ts with
  | target :: ⟨.equals, _⟩ :: rest =>
    match target.token with
    | .word _ => diagnose (endColumn ts) .operand 0 rest
    | token => some ⟨.invalidTarget token.lexeme, target.offset + 1⟩
  | _ => diagnose (endColumn ts) .operand 0 ts

end Calculator
