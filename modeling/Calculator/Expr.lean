import Calculator.Number.Text

/- Expression trees, their size and their text.
   Trees of long operator chains are as deep as the chain is long, so they are counted from a list
   of trees yet to be visited. -/
namespace Calculator

inductive BinaryOp where
  | add
  | sub
  | mul
  | div
  deriving DecidableEq, Repr

def BinaryOp.apply : BinaryOp → Float → Float → Float
  | .add, x, y => x + y
  | .sub, x, y => x - y
  | .mul, x, y => x * y
  | .div, x, y => x / y

def BinaryOp.symbol : BinaryOp → Char
  | .add => '+'
  | .sub => '-'
  | .mul => '*'
  | .div => '/'

def BinaryOp.isProduct : BinaryOp → Bool
  | .add | .sub => false
  | .mul | .div => true

/-- Two trees are compared with their numbers as numbers: zero equals minus zero and a NaN differs
    from itself. -/
inductive Expr where
  | number (value : Float)
  | name (text : String)
  | negation (operand : Expr)
  | binary (op : BinaryOp) (left right : Expr)
  | assignment (target : String) (value : Expr)
  deriving BEq

def Expr.assigns : Expr → Bool
  | .assignment _ _ => true
  | _ => false

def Expr.children : Expr → List Expr
  | .number _ | .name _ => []
  | .negation e | .assignment _ e => [e]
  | .binary _ l r => [l, r]

def Expr.size : Expr → Nat
  | .number _ | .name _ => 1
  | .negation e | .assignment _ e => e.size + 1
  | .binary _ l r => l.size + r.size + 1

def totalSize (es : List Expr) : Nat := es.foldr (fun e n => e.size + n) 0

def visitAll : List Expr → Nat → Nat
  | [], n => n
  | e :: rest, n => visitAll (e.children.reverse ++ rest) (n + 1)
termination_by es => totalSize es
decreasing_by
  cases e <;> simp [totalSize, Expr.children, Expr.size]
  omega

def Expr.visits (e : Expr) : Nat := visitAll [e] 0

theorem visitAll_eq (es : List Expr) (n : Nat) : visitAll es n = n + totalSize es := by
  fun_induction visitAll es n with
  | case1 => simp [totalSize]
  | case2 e rest n ih =>
    rw [ih]
    cases e <;> simp [totalSize, Expr.children, Expr.size] <;> omega

theorem visits_eq_size (e : Expr) : e.visits = e.size := by
  simp [Expr.visits, visitAll_eq, totalSize]

/-- Writes a tree in front of a text. Every operation stands in parentheses. -/
def Expr.writeOnto : Expr → List Char → List Char
  | .number x, rest => writeNumber x ++ rest
  | .name text, rest => text.toList ++ rest
  | .negation e, rest => '-' :: e.writeOnto rest
  | .binary op l r, rest =>
    '(' :: l.writeOnto (' ' :: op.symbol :: ' ' :: r.writeOnto (')' :: rest))
  | .assignment target e, rest => target.toList ++ ' ' :: '=' :: ' ' :: e.writeOnto rest

def Expr.text (e : Expr) : String := String.ofList (e.writeOnto [])

end Calculator
