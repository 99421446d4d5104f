import Calculator.Proofs.Evaluation
import Calculator.Proofs.Grammar
import Calculator.Proofs.Operand
import Calculator.Proofs.Rendering

/- What evaluating a tree does to the store. It makes the writes of the tree's assignments in order
   and no others, and a tree that is read as an expression holds no assignment. -/
namespace Calculator

theorem meaning_store (e : Expr) (s : Store) : (e.meaning s).2 = s.setAll (e.writes s) := by
  induction e generalizing s with
  | number x => rfl
  | name text => rfl
  | negation e ih => exact ih s
  | binary op l r ihl ihr =>
    simp only [Expr.meaning, Expr.writes, setAll_append]
    rw [← ihl, ← ihr]
  | assignment target e ih =>
    simp only [Expr.meaning, Expr.writes, setAll_append]
    rw [← ih]
    rfl

theorem operands_writes {P : Expr → Prop} {e : Expr} (bare : e.Operands P) (s : Store) :
    e.writes s = [] := by
  induction e generalizing s with
  | number x => rfl
  | name text => rfl
  | negation e ih => exact ih bare s
  | binary op l r ihl ihr =>
    unfold Expr.writes
    rw [ihl bare.1, ihr bare.2, List.append_nil]
  | assignment target e ih => cases bare

theorem operands_store {P : Expr → Prop} {e : Expr} (bare : e.Operands P) (s : Store) :
    (e.meaning s).2 = s := by
  rw [meaning_store, operands_writes bare]
  rfl

theorem phrase_operands {P : Expr → Prop} {c : Category} {ts : List Token} {e : Expr}
    (phrase : Phrase c ts e)
    (operand : ∀ word e, .word word ∈ ts → Expr.ofWord word = .ok e → P e) : e.Operands P := by
  induction phrase with
  | operand read =>
    have property := operand _ _ (List.mem_singleton_self _) read
    rcases ofWord_ok read with ⟨literal, same⟩ | ⟨same, -⟩
    · subst same
      exact property
    · subst same
      exact property
  | group inner ih =>
    apply ih
    intro word e member
    exact operand word e (by simp [member])
  | primary inner ih => exact ih operand
  | negation inner ih =>
    apply ih
    intro word e member
    exact operand word e (by simp [member])
  | factor inner ih => exact ih operand
  | term inner ih => exact ih operand
  | product left sign right ihl ihr | sum left sign right ihl ihr =>
    constructor
    · apply ihl
      intro word e member
      exact operand word e (by simp [member])
    · apply ihr
      intro word e member
      exact operand word e (by simp [member])

theorem phrase_bare {c : Category} {ts : List Token} {e : Expr} (phrase : Phrase c ts e) :
    e.Operands fun _ => True := by
  apply phrase_operands phrase
  intro word e member read
  trivial

theorem assigns_of_operands {P : Expr → Prop} {e : Expr} (bare : e.Operands P) :
    e.assigns = false := by
  cases e with
  | assignment target e => cases bare
  | _ => rfl

theorem ofTokens_plain_iff {ts : List Placed} {e : Expr} :
    Expr.ofTokens ts = .ok e ∧ e.assigns = false ↔
      Phrase .expression (tokensOf ts) e ∧ deepest 0 (tokensOf ts) ≤ maxDepth := by
  constructor
  · intro line
    obtain ⟨accepted, plain⟩ := line
    rcases ofTokens_ok_iff.mp accepted with ⟨name, rest, value, -, same, -⟩ | ⟨-, whole⟩
    · subst same
      cases plain
    · exact whole_iff_phrase.mp whole
  · intro derived
    exact ⟨ofTokens_of_whole (whole_iff_phrase.mpr derived),
      assigns_of_operands (phrase_bare derived.1)⟩

end Calculator
