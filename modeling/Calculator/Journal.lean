import Calculator.Expr
import Calculator.LineError
import Calculator.Shown
import Calculator.Token

/- What happens while a line is read and evaluated, as events and as texts. -/
namespace Calculator

inductive Event where
  | tokens (tokens : List Placed)
  | parsed (nodes : Nat) (assignment : Bool)
  | bound (name : String) (value : Float)
  | rejected (line : String) (error : LineError)

inductive Detail where
  | debug
  | trace
  deriving DecidableEq, Repr

def Event.detail : Event → Detail
  | .bound _ _ => .trace
  | _ => .debug

def Detail.text : Detail → String
  | .debug => "DEBUG"
  | .trace => "TRACE"

variable (shown : Char → Bool)

/-- A character in a quoted text. One that is not shown is told by its code point. -/
def escape : Char → List Char
  | '\x00' => ['\\', '0']
  | '\t' => ['\\', 't']
  | '\n' => ['\\', 'n']
  | '\r' => ['\\', 'r']
  | '\\' => ['\\', '\\']
  | '"' => ['\\', '"']
  | c => if shown c then [c] else ['\\', 'u', '\x7b'] ++ Nat.toDigits 16 c.toNat ++ ['\x7d']

def quoted (s : String) : String :=
  String.ofList ('"' :: s.toList.flatMap (escape shown) ++ ['"'])

def Token.title : Token → String
  | .plus => "Plus"
  | .minus => "Minus"
  | .star => "Star"
  | .slash => "Slash"
  | .equals => "Equals"
  | .openParen => "LParen"
  | .closeParen => "RParen"
  | .word text => "Word(" ++ quoted shown text ++ ")"
  | .blank => "Ignored"

def Placed.text (t : Placed) : String :=
  "(" ++ t.token.title shown ++ ", " ++ t.offset.repr ++ ")"

def Event.text : Event → String
  | .tokens ts => "tokens: [" ++ ", ".intercalate (ts.map (Placed.text shown)) ++ "]"
  | .parsed nodes assignment =>
    "parsed " ++ nodes.repr ++ " nodes (assignment: " ++ (if assignment then "true" else "false") ++ ")"
  | .bound name value => "binding " ++ name ++ " = " ++ String.ofList (writeNumber value)
  | .rejected line error =>
    "rejected line " ++ quoted shown line ++ ": " ++ error.text ++ " (" ++ error.fault.kind.text ++ ")"

def Event.entry (e : Event) : String := e.detail.text ++ " " ++ e.text isShown

end Calculator
