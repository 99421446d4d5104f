import Calculator.Descent

/- Lines of tokens: an expression, or a word, `=` and an expression. -/
namespace Calculator

variable {ε : Type}

def Arithmetic.expectEnd (A : Arithmetic ε) (c : Cursor) (e : Expr) : Except ε Expr :=
  match c.next? with
  | none => .ok e
  | some t => A.fail (.trailingTokens t.token.lexeme) (A.column t)

def Cursor.readToEnd (A : Arithmetic ε) (c : Cursor) : Except ε Expr :=
  let (result, after) := c.additive A
  result.bind (A.expectEnd after.cursor)

/-- The target is checked before the value is read. -/
def Expr.parse (A : Arithmetic ε) (tokens : List Placed) : Except ε Expr :=
  let c := Cursor.start tokens
  match c.second? with
  | some ⟨.equals, _⟩ =>
    match c.advance with
    | (some ⟨.word text, _⟩, c) => (c.advance.2.readToEnd A).map (.assignment text)
    | (some t, _) => A.fail (.invalidTarget t.token.lexeme) (A.column t)
    | (none, c) => c.readToEnd A
  | _ => c.readToEnd A

def Expr.ofTokens (tokens : List Placed) : Except LineError Expr := Expr.parse .exact tokens

end Calculator
