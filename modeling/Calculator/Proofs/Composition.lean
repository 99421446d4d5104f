import Calculator.Proofs.Evaluation

/- The evaluation of a tree, put together from those of its operands. The machine works on one stack all
   the way, yet each operand comes out as if it were evaluated alone, the right one in the store that
   the left one leaves. -/
namespace Calculator

theorem evaluation_number (s : Store) (x : Float) : s.evaluation (.number x) = ⟨x, s, []⟩ :=
  evaluation_eq s (.number x)

theorem evaluation_name (s : Store) (text : String) :
    s.evaluation (.name text) = ⟨s.get text, s, []⟩ := by
  rw [evaluation_eq, meaning_name]
  rfl

theorem evaluation_negation (s : Store) (e : Expr) :
    s.evaluation (.negation e) =
      ⟨-(s.evaluation e).value, (s.evaluation e).store, (s.evaluation e).bound⟩ := by
  simp only [evaluation_eq, Expr.meaning, Expr.writes]

theorem evaluation_binary (s : Store) (op : BinaryOp) (l r : Expr) :
    s.evaluation (.binary op l r) =
      let left := s.evaluation l
      let right := left.store.evaluation r
      ⟨op.apply left.value right.value, right.store, left.bound ++ right.bound⟩ := by
  simp only [evaluation_eq, Expr.meaning, Expr.writes]

theorem evaluation_assignment (s : Store) (target : String) (e : Expr) :
    s.evaluation (.assignment target e) =
      let inner := s.evaluation e
      ⟨inner.value, inner.store.set target inner.value, inner.bound ++ [(target, inner.value)]⟩ := by
  simp only [evaluation_eq, meaning_assignment, Expr.writes]

/-- An operation evaluated operand by operand gives the value and the store that its tree gives, and so
    does a negation. -/
theorem operated_negated_eq_eval (s : Store) (op : BinaryOp) (l r : Expr) :
    s.operated op l r = s.eval (.binary op l r) ∧ s.negated l = s.eval (.negation l) := by
  constructor
  · unfold Store.operated Store.eval
    rw [evaluation_binary]
  · unfold Store.negated Store.eval
    rw [evaluation_negation]

end Calculator
