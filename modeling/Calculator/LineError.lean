/- What can be wrong with a line, and in which column. -/
namespace Calculator

inductive Fault where
  | unexpectedToken (lexeme : String)
  | unexpectedEnd
  | missingCloseParen
  | unexpectedOpenParen
  | trailingTokens (lexeme : String)
  | invalidNumber (literal : String)
  | invalidTarget (lexeme : String)
  | nestedTooDeeply (limit : Nat)
  deriving DecidableEq, Repr

structure LineError where
  fault : Fault
  column : Nat
  deriving DecidableEq, Repr

inductive FaultKind where
  | form
  | depth
  deriving DecidableEq, Repr

def Fault.kind : Fault → FaultKind
  | .nestedTooDeeply _ => .depth
  | _ => .form

def FaultKind.text : FaultKind → String
  | .form => "Syntax"
  | .depth => "RecursionLimit"

def Fault.text : Fault → String
  | .unexpectedToken lexeme => "Unexpected token '" ++ lexeme ++ "'."
  | .unexpectedEnd => "Unexpected end of input."
  | .missingCloseParen => "Expected closing parenthesis ')' but none found."
  | .unexpectedOpenParen => "Unexpected '(' where an operator was expected."
  | .trailingTokens lexeme => "Extra tokens after expression, starting at '" ++ lexeme ++ "'."
  | .invalidNumber literal => "Invalid number literal '" ++ literal ++ "'."
  | .invalidTarget lexeme => "Cannot assign to '" ++ lexeme ++ "'."
  | .nestedTooDeeply limit => "Expression is nested too deeply (limit is " ++ limit.repr ++ ")."

def LineError.text (e : LineError) : String :=
  "Error at column " ++ e.column.repr ++ ": " ++ e.fault.text

end Calculator
