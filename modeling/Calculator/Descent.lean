import Calculator.Arithmetic
import Calculator.Cursor
import Calculator.Operand

/- Reading an expression by recursive descent: sums of products of factors, both associating to the
   left. Each function gives what it has read, or an error, and the cursor where it stands then. -/
namespace Calculator

def maxDepth : Nat := 512

def Token.operator? : Token → Option BinaryOp
  | .plus => some .add
  | .minus => some .sub
  | .star => some .mul
  | .slash => some .div
  | _ => none

def Cursor.operator? (c : Cursor) (product : Bool) : Option BinaryOp :=
  (c.next?.bind (·.token.operator?)).filter (·.isProduct == product)

theorem step_left_of_operator {c : Cursor} {product : Bool} {op : BinaryOp}
    (found : c.operator? product = some op) : c.step.cursor.left < c.left := by
  unfold Cursor.operator? at found
  cases next : c.next? with
  | none => simp [next] at found
  | some t => exact step_left next

variable {ε : Type}

abbrev Parse (ε : Type) (c : Cursor) : Type := Except ε Expr × c.Onward

def Arithmetic.failAtEnd (A : Arithmetic ε) (c : Cursor) (fault : Fault) : Except ε Expr :=
  A.fail fault (A.endColumn c.tokens.back?)

/-- A parenthesis right after an operand is refused. -/
def Arithmetic.unlessParen (A : Arithmetic ε) (c : Cursor) (e : Expr) : Except ε Expr :=
  match c.next? with
  | some ⟨.openParen, offset⟩ => A.fail .unexpectedOpenParen (A.column ⟨.openParen, offset⟩)
  | _ => .ok e

def Arithmetic.operand (A : Arithmetic ε) (text : String) (column : Nat) : Except ε Expr :=
  match Expr.ofWord text with
  | .ok e => .ok e
  | .error fault => .error (A.reject ⟨fault, column⟩)

/-- The end of a group; without a closing parenthesis the group stays open. -/
def Cursor.close (A : Arithmetic ε) (c : Cursor) (e : Expr) : Parse ε c :=
  match c.next? with
  | some ⟨.closeParen, _⟩ => (.ok e, c.step.leave)
  | some t => (A.fail .missingCloseParen (A.column t), c.stay)
  | none => (A.failAtEnd c .missingCloseParen, c.stay)

/-- Goes on from a part that was read further on; an error of the part ends the whole. -/
def Cursor.Onward.andThen {start : Cursor} (here : start.Onward) (part : Parse ε here.cursor)
    (go : Expr → here.cursor.Onward → Parse ε start) : Parse ε start :=
  match part with
  | (.error stop, after) => (.error stop, here.before after)
  | (.ok e, after) => go e after

mutual

def Cursor.additive (A : Arithmetic ε) (c : Cursor) : Parse ε c :=
  c.stay.andThen (c.multiplicative A) fun e after => c.additiveLoop A e after
termination_by 6 * c.left + 5
decreasing_by
  · omega
  · have : after.cursor.left ≤ c.left := onward_left after
    omega

def Cursor.additiveLoop (A : Arithmetic ε) (start : Cursor) (left : Expr) (here : start.Onward) :
    Parse ε start :=
  if start.position < here.cursor.position then
    match _ : here.cursor.operator? false with
    | none => (A.unlessParen here.cursor left, here)
    | some op =>
      here.step.andThen (here.cursor.step.cursor.multiplicative A) fun right after =>
        start.additiveLoop A (.binary op left right) (here.step.before after)
  else (.ok left, here)
termination_by 6 * here.cursor.left + 4
decreasing_by
  · have := step_left_of_operator ‹_›
    omega
  · have := step_left_of_operator ‹_›
    have : after.cursor.left ≤ here.cursor.step.cursor.left := onward_left after
    simp only [Onward.before]
    omega

def Cursor.multiplicative (A : Arithmetic ε) (c : Cursor) : Parse ε c :=
  c.stay.andThen (c.unary A) fun e after => c.multiplicativeLoop A e after
termination_by 6 * c.left + 3
decreasing_by
  · omega
  · have : after.cursor.left ≤ c.left := onward_left after
    omega

def Cursor.multiplicativeLoop (A : Arithmetic ε) (start : Cursor) (left : Expr)
    (here : start.Onward) : Parse ε start :=
  if start.position < here.cursor.position then
    match _ : here.cursor.operator? true with
    | none => (A.unlessParen here.cursor left, here)
    | some op =>
      here.step.andThen (here.cursor.step.cursor.unary A) fun right after =>
        start.multiplicativeLoop A (.binary op left right) (here.step.before after)
  else (.ok left, here)
termination_by 6 * here.cursor.left + 2
decreasing_by
  · have := step_left_of_operator ‹_›
    omega
  · have := step_left_of_operator ‹_›
    have : after.cursor.left ≤ here.cursor.step.cursor.left := onward_left after
    simp only [Onward.before]
    omega

/-- The sign stands before one primary, not before a product. -/
def Cursor.unary (A : Arithmetic ε) (c : Cursor) : Parse ε c :=
  match _ : c.next? with
  | some ⟨.minus, _⟩ =>
    c.step.andThen (c.step.cursor.primary A) fun e after => (.ok (.negation e), c.step.before after)
  | _ => c.primary A
termination_by 6 * c.left + 2
decreasing_by
  · have := step_left ‹_›
    omega
  · omega

def Cursor.primary (A : Arithmetic ε) (c : Cursor) : Parse ε c :=
  match found : c.next? with
  | none => (A.failAtEnd c .unexpectedEnd, c.stay)
  | some t =>
    match t.token with
    | .openParen => c.grouping A t found
    | .word text => ((A.column t).bind (A.operand text), c.step)
    | token => (A.fail (.unexpectedToken token.lexeme) (A.column t), c.stay)
termination_by 6 * c.left + 1
decreasing_by omega

def Cursor.grouping (A : Arithmetic ε) (c : Cursor) (t : Placed) (_ : c.next? = some t) :
    Parse ε c :=
  match A.column t with
  | .error stop => (.error stop, c.step)
  | .ok column =>
    if maxDepth ≤ c.depth then (.error (A.reject ⟨.nestedTooDeeply maxDepth, column⟩), c.step)
    else
      c.step.enter.andThen (c.step.enter.cursor.additive A) fun e after =>
        let (result, last) := after.cursor.close A e
        (result, (c.step.enter.before after).before last)
termination_by 6 * c.left
decreasing_by
  have := step_left ‹_›
  have : c.step.enter.cursor.left = c.step.cursor.left := rfl
  omega

end

/-- A term ends before a sum's operator, an expression does not. -/
inductive Goal where
  | term
  | expression
  deriving DecidableEq, Repr

def Cursor.phrase (goal : Goal) (c : Cursor) : Parse LineError c :=
  match goal with
  | .term => c.multiplicative .exact
  | .expression => c.additive .exact

/-- Reads a phrase. After an error the cursor stands where reading broke off, and the parentheses
    that were open there still count. -/
def Cursor.read (goal : Goal) (c : Cursor) : Except LineError Expr × Cursor :=
  let (result, after) := c.phrase goal
  (result, after.cursor)

end Calculator
