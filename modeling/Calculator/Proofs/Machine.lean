import Calculator.Descent

/- Reading one expression token by token.
   A level holds what waits for the factor under way: the left operand of a sum, that of a product
   and a minus sign. Each open parenthesis puts the level around it aside until it closes. -/
namespace Calculator

/-- A left operand and its operator, which wait for the right operand. -/
abbrev Waiting := Option (Expr × BinaryOp)

def Waiting.join (w : Waiting) (e : Expr) : Expr :=
  match w with
  | none => e
  | some (left, op) => .binary op left e

structure Level where
  sum : Waiting
  product : Waiting
  negated : Bool

def Level.empty : Level := ⟨none, none, false⟩

def Level.term (level : Level) (e : Expr) : Expr :=
  level.product.join (if level.negated then .negation e else e)

/-- Either an operand comes next, or a term has been read and an operator may follow. -/
inductive State where
  | before (level : Level) (outer : List Level)
  | after (sum : Waiting) (term : Expr) (outer : List Level)

def State.start : State := .before .empty []

def State.depth : State → Nat
  | .before _ outer | .after _ _ outer => outer.length

def Level.accept (level : Level) (outer : List Level) (e : Expr) : State :=
  .after level.sum (level.term e) outer

/-- What becomes of a token: it is taken, the phrase has ended before it, or it is refused. A refused
    token may count as read. -/
inductive Step where
  | take (next : State)
  | stop (e : Expr)
  | refuse (read : Bool) (error : LineError)

def State.feed (goal : Goal) (base : Nat) : State → Placed → Step
  | .before level outer, t =>
    match t.token with
    | .minus =>
      if level.negated then .refuse false ⟨.unexpectedToken t.token.lexeme, t.column⟩
      else .take (.before { level with negated := true } outer)
    | .openParen =>
      if maxDepth ≤ base + outer.length then .refuse true ⟨.nestedTooDeeply maxDepth, t.column⟩
      else .take (.before .empty (level :: outer))
    | .word text =>
      match Expr.ofWord text with
      | .ok e => .take (level.accept outer e)
      | .error fault => .refuse true ⟨fault, t.column⟩
    | _ => .refuse false ⟨.unexpectedToken t.token.lexeme, t.column⟩
  | .after sum term outer, t =>
    match t.token with
    | .openParen => .refuse false ⟨.unexpectedOpenParen, t.column⟩
    | .closeParen =>
      match outer with
      | [] => .stop (sum.join term)
      | level :: outer => .take (level.accept outer (sum.join term))
    | token =>
      match token.operator? with
      | some op =>
        if op.isProduct then .take (.before ⟨sum, some (term, op), false⟩ outer)
        else if goal = .term ∧ outer.isEmpty then .stop (sum.join term)
        else .take (.before ⟨some (sum.join term, op), none, false⟩ outer)
      | none =>
        if outer.isEmpty then .stop (sum.join term)
        else .refuse false ⟨.missingCloseParen, t.column⟩

def State.finish (column : Nat) : State → Except LineError Expr
  | .before _ _ => .error ⟨.unexpectedEnd, column⟩
  | .after sum term [] => .ok (sum.join term)
  | .after _ _ (_ :: _) => .error ⟨.missingCloseParen, column⟩

structure Reading where
  result : Except LineError Expr
  rest : List Placed
  depth : Nat

/-- Reads a phrase inside `base` open parentheses; `column` is the column of the end. -/
def State.read (goal : Goal) (base column : Nat) : State → List Placed → Reading
  | state, [] => ⟨state.finish column, [], base + state.depth⟩
  | state, t :: rest =>
    match state.feed goal base t with
    | .take next => next.read goal base column rest
    | .stop e => ⟨.ok e, t :: rest, base + state.depth⟩
    | .refuse read error => ⟨.error error, if read then rest else t :: rest, base + state.depth⟩

end Calculator
