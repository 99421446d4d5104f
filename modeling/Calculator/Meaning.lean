import Calculator.Expr
import Calculator.Store

/- The meaning of a tree, by recursion on it: the value, and the store after it. A name that is not bound
   means zero. -/
namespace Calculator

def Expr.meaning : Expr → Store → Float × Store
  | .number x, s => (x, s)
  | .name text, s => (s.bindings[text]?.getD 0, s)
  | .negation e, s =>
    let (x, s) := e.meaning s
    (-x, s)
  | .binary op l r, s =>
    let (x, s) := l.meaning s
    let (y, s) := r.meaning s
    (op.apply x y, s)
  | .assignment target e, s =>
    let (x, s) := e.meaning s
    (x, ⟨s.bindings.insert target x⟩)

theorem meaning_name (text : String) (s : Store) :
    (Expr.name text).meaning s = (s.get text, s) := by
  rw [get_eq_binding]
  rfl

theorem meaning_assignment (target : String) (e : Expr) (s : Store) :
    (Expr.assignment target e).meaning s =
      ((e.meaning s).1, (e.meaning s).2.set target (e.meaning s).1) := rfl

end Calculator
