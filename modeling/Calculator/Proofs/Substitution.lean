import Calculator.Proofs.Effects

/- Putting an expression in the place of a name. In a line the name's words become groups of the
   expression's tokens, in its tree the name's operands become the expression's tree, and evaluating
   gives what the name would give if it were assigned the expression first. -/
namespace Calculator

def Token.substitute (x : String) (us : List Token) : Token → List Token
  | .word text => if text = x then .openParen :: (us ++ [.closeParen]) else [.word text]
  | t => [t]

def substituteAll (x : String) (us ts : List Token) : List Token := ts.flatMap (Token.substitute x us)

def Expr.substitute : Expr → String → Expr → Expr
  | .number v, _, _ => .number v
  | .name text, x, value => if text = x then value else .name text
  | .negation e, x, value => .negation (e.substitute x value)
  | .binary op l r, x, value => .binary op (l.substitute x value) (r.substitute x value)
  | .assignment target e, x, value => .assignment target (e.substitute x value)

variable {x : String} {us : List Token} {value : Expr}

theorem substituteAll_append (ts ts' : List Token) :
    substituteAll x us (ts ++ ts') = substituteAll x us ts ++ substituteAll x us ts' :=
  List.flatMap_append

theorem substituteAll_cons (t : Token) (ts : List Token) :
    substituteAll x us (t :: ts) = t.substitute x us ++ substituteAll x us ts :=
  List.flatMap_cons

theorem substitute_sign {c : Category} {t : Token} {op : BinaryOp} (sign : Sign c t op) :
    t.substitute x us = [t] := by
  cases sign <;> rfl

theorem phrase_substitute {c : Category} {ts : List Token} {e : Expr} (phrase : Phrase c ts e)
    (inner : Phrase .expression us value) (letter : StartsWithLetter x) :
    Phrase c (substituteAll x us ts) (e.substitute x value) := by
  induction phrase with
  | operand read =>
    rename_i word e
    by_cases same : word = x
    · subst same
      obtain rfl : Expr.name word = e := by
        rw [ofWord_letter letter] at read
        exact Except.ok.inj read
      simpa [substituteAll, Token.substitute, Expr.substitute] using Phrase.group inner
    · have kept : e.substitute x value = e := by
        rcases ofWord_ok read with ⟨literal, number⟩ | ⟨name, -⟩
        · rw [number, Expr.substitute]
        · rw [name, Expr.substitute, if_neg same]
      simpa [substituteAll, Token.substitute, same, kept] using Phrase.operand read
  | group phrase ih =>
    rw [substituteAll_cons, substituteAll_append]
    exact .group ih
  | primary phrase ih => exact .primary ih
  | negation phrase ih => exact .negation ih
  | factor phrase ih => exact .factor ih
  | term phrase ih => exact .term ih
  | product left sign right ihl ihr =>
    rw [substituteAll_append, substituteAll_cons, substitute_sign sign]
    exact .product ihl sign ihr
  | sum left sign right ihl ihr =>
    rw [substituteAll_append, substituteAll_cons, substitute_sign sign]
    exact .sum ihl sign ihr

theorem meaning_substitute {P Q : Expr → Prop} {e : Expr} (bare : e.Operands P)
    (bareValue : value.Operands Q) (s : Store) :
    (e.substitute x value).meaning s = ((e.meaning (s.set x (value.meaning s).1)).1, s) := by
  induction e with
  | number v => rfl
  | name text =>
    simp only [Expr.substitute, meaning_name, get_set]
    by_cases same : text = x
    · rw [if_pos same, if_pos same.symm]
      exact Prod.ext rfl (operands_store bareValue s)
    · rw [if_neg same, if_neg (Ne.symm same), meaning_name]
  | negation e ih =>
    simp only [Expr.substitute, Expr.meaning, ih bare]
  | binary op l r ihl ihr =>
    simp only [Expr.substitute, Expr.meaning, ihl bare.1, ihr bare.2, operands_store bare.1]
  | assignment target e ih => cases bare

/-- In an accepted expression, words that are a name may be replaced by the group of another accepted
    expression, as far as the depth allows. The line is accepted with the tree so changed, and has the
    value that the first one has after the name is assigned the second one. -/
theorem ofTokens_substitute {outer inner line : List Placed} {e value : Expr} {x : String}
    (outerRead : Expr.ofTokens outer = .ok e) (outerPlain : e.assigns = false)
    (innerRead : Expr.ofTokens inner = .ok value) (innerPlain : value.assigns = false)
    (letter : StartsWithLetter x)
    (replaced : tokensOf line = substituteAll x (tokensOf inner) (tokensOf outer))
    (shallow : deepest 0 (tokensOf line) ≤ maxDepth) :
    Expr.ofTokens line = .ok (e.substitute x value) ∧
    ∀ s : Store, (s.eval (e.substitute x value)).1 = ((s.eval (.assignment x value)).2.eval e).1 := by
  have outerPhrase := (ofTokens_plain_iff.mp ⟨outerRead, outerPlain⟩).1
  have innerPhrase := (ofTokens_plain_iff.mp ⟨innerRead, innerPlain⟩).1
  constructor
  · have phrase := phrase_substitute outerPhrase innerPhrase letter
    rw [← replaced] at phrase
    exact (ofTokens_plain_iff.mpr ⟨phrase, shallow⟩).1
  · intro s
    rw [eval_eq, eval_eq, eval_eq,
      meaning_substitute (phrase_bare outerPhrase) (phrase_bare innerPhrase)]
    simp only [meaning_assignment, operands_store (phrase_bare innerPhrase)]

/-- In `-x*x` the name stands after a sign and on either side of an operator. -/
theorem ofTokens_substitute_signed :
    Expr.ofTokens (lex "-x*x") = .ok (.binary .mul (.negation (.name "x")) (.name "x")) ∧
    Expr.ofTokens (lex "y+z") = .ok (.binary .add (.name "y") (.name "z")) ∧
    Expr.ofTokens (lex "-(y+z)*(y+z)") =
      .ok (.binary .mul (.negation (.binary .add (.name "y") (.name "z")))
        (.binary .add (.name "y") (.name "z"))) ∧
    ∀ s : Store,
      (s.eval (.binary .mul (.negation (.binary .add (.name "y") (.name "z")))
        (.binary .add (.name "y") (.name "z")))).1 =
      ((s.eval (.assignment "x" (.binary .add (.name "y") (.name "z")))).2.eval
        (.binary .mul (.negation (.name "x")) (.name "x"))).1 := by
  have outer : Expr.ofTokens (lex "-x*x") =
      .ok (.binary .mul (.negation (.name "x")) (.name "x")) := by
    unfold lex
    rw [scan_eq_spell, ofTokens_eq]
    rfl
  have inner : Expr.ofTokens (lex "y+z") = .ok (.binary .add (.name "y") (.name "z")) := by
    unfold lex
    rw [scan_eq_spell, ofTokens_eq]
    rfl
  have replaced : tokensOf (lex "-(y+z)*(y+z)") =
      substituteAll "x" (tokensOf (lex "y+z")) (tokensOf (lex "-x*x")) := by
    unfold lex
    simp only [scan_eq_spell]
    rfl
  have shallow : deepest 0 (tokensOf (lex "-(y+z)*(y+z)")) ≤ maxDepth := by
    unfold lex
    rw [scan_eq_spell]
    decide
  have letter : StartsWithLetter "x" := ⟨'x', by rfl, by decide⟩
  exact ⟨outer, inner, ofTokens_substitute outer rfl inner rfl letter replaced shallow⟩

end Calculator
