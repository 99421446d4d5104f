import Calculator.Proofs.RoundTrip
import Calculator.Proofs.Number.Sign

/- What the tokens of a line become in its tree. The tree read in order gives back the tokens but for
   the parentheses, so none is lost and none is used twice, and the nodes can be counted on the
   tokens. -/
namespace Calculator

def Token.isParen : Token → Bool
  | .openParen | .closeParen => true
  | _ => false

inductive Mark where
  | number (value : Float)
  | name (text : String)
  | sign
  | operator (op : BinaryOp)
  | target (name : String)
  | equals

/-- An operator is read between its operands and a sign before its operand. -/
def Expr.inOrder : Expr → List Mark
  | .number x => [.number x]
  | .name text => [.name text]
  | .negation e => .sign :: e.inOrder
  | .binary op l r => l.inOrder ++ .operator op :: r.inOrder
  | .assignment target e => .target target :: .equals :: e.inOrder

inductive Token.Becomes : Token → Mark → Prop where
  | number {text : String} {x : Float} (read : Expr.ofWord text = .ok (.number x)) :
      Becomes (.word text) (.number x)
  | name (text : String) : Becomes (.word text) (.name text)
  | sign : Becomes .minus .sign
  | operator {c : Category} {t : Token} {op : BinaryOp} (sign : Sign c t op) :
      Becomes t (.operator op)
  | target (name : String) : Becomes (.word name) (.target name)
  | equals : Becomes .equals .equals

structure Expr.YieldOf (e : Expr) (ts : List Token) : Prop where
  root : ∀ child ∈ e.children, ∀ sub ∈ child.subtrees, sub.assigns = false
  assigns : e.assigns = true ↔ ts[1]? = some .equals
  numbers : ∀ x, .number x ∈ e.subtrees →
    0 ≤ x ∧ x.toBits.toNat < 2 ^ 63 ∧ x.isNaN = false
  names : ∀ text, .name text ∈ e.subtrees → StartsWithLetter text
  inOrder : List.Forall₂ Token.Becomes (ts.filter fun t => !t.isParen) e.inOrder
  count : e.visits + ts.countP Token.isParen + (if e.assigns then 1 else 0) = ts.length

def Expr.Plain : Expr → Prop
  | .number x => x.toBits.toNat ≤ infinityBits
  | .name text => StartsWithLetter text
  | _ => True

variable {ts : List Token} {e : Expr} {c : Category}

theorem literal_bits (literal : Literal) : literal.toFloat.toBits.toNat ≤ infinityBits := by
  have within := nearestBits_le literal.decimal.fraction
  rw [Literal.toFloat, Fraction.toFloat, toBits_ofBits_ofNat within]
  exact within

theorem plain_of_ofWord {word : String} (read : Expr.ofWord word = .ok e) : e.Plain := by
  rcases ofWord_ok read with ⟨literal, rfl⟩ | ⟨rfl, letter⟩
  · exact literal_bits literal
  · exact letter

theorem phrase_plain (phrase : Phrase c ts e) : e.Operands Expr.Plain := by
  apply phrase_operands phrase
  intro word operand member read
  exact plain_of_ofWord read

theorem filter_sign {t : Token} {op : BinaryOp} (sign : Sign c t op) (ts us : List Token) :
    (ts ++ t :: us).filter (fun t => !t.isParen) =
      ts.filter (fun t => !t.isParen) ++ t :: us.filter fun t => !t.isParen := by
  have mark : t.isParen = false := by cases sign <;> rfl
  simp [mark]

theorem phrase_inOrder (phrase : Phrase c ts e) :
    List.Forall₂ Token.Becomes (ts.filter fun t => !t.isParen) e.inOrder := by
  induction phrase with
  | operand read =>
    rcases ofWord_ok read with ⟨literal, rfl⟩ | ⟨rfl, -⟩
    · exact .cons (.number read) .nil
    · exact .cons (.name _) .nil
  | group inner ih => simpa [Token.isParen] using ih
  | primary inner ih | factor inner ih | term inner ih => exact ih
  | negation inner ih => exact .cons .sign ih
  | product left sign right ihl ihr | sum left sign right ihl ihr =>
    rw [filter_sign sign]
    exact List.rel_append ihl (.cons (.operator sign) ihr)

theorem inOrder_length {P : Expr → Prop} (bare : e.Operands P) : e.inOrder.length = e.size := by
  induction e with
  | number x => rfl
  | name text => rfl
  | negation e ih => simp [Expr.inOrder, Expr.size, ih bare]
  | binary op l r ihl ihr =>
    simp only [Expr.inOrder, Expr.size, List.length_append, List.length_cons, ihl bare.1, ihr bare.2]
    omega
  | assignment target e ih => cases bare

theorem phrase_count (phrase : Phrase c ts e) : e.visits + ts.countP Token.isParen = ts.length := by
  have marks := (phrase_inOrder phrase).length_eq
  rw [inOrder_length (phrase_bare phrase), ← visits_eq_size] at marks
  have split := List.length_eq_length_filter_add (l := ts) Token.isParen
  rw [List.countP_eq_length_filter]
  omega

theorem number_of_plain {x : Float} (plain : (Expr.number x).Plain) :
    0 ≤ x ∧ x.toBits.toNat < 2 ^ 63 ∧ x.isNaN = false := by
  obtain ⟨least, number⟩ := nonneg_of_le plain
  have below : x.toBits.toNat < 2 ^ 63 := Nat.lt_of_le_of_lt plain (by decide)
  exact ⟨least, below, number⟩

theorem yield_expression (phrase : Phrase .expression ts e) (plain : ts[1]? ≠ some .equals) :
    e.YieldOf ts := by
  have assigns := assigns_of_operands (phrase_bare phrase)
  obtain ⟨bare, numbers, names⟩ := operands_iff.mp (phrase_plain phrase)
  constructor
  case root =>
    intro child inside sub below
    exact bare sub (mem_subtrees_of_child inside below)
  case assigns => simp [assigns, plain]
  case numbers => exact fun x member => number_of_plain (numbers x member)
  case names => exact names
  case inOrder => exact phrase_inOrder phrase
  case count => simpa [assigns] using phrase_count phrase

theorem yield_assignment (name : String) (value : Phrase .expression ts e) :
    (Expr.assignment name e).YieldOf (.word name :: .equals :: ts) := by
  obtain ⟨bare, numbers, names⟩ := operands_iff.mp (phrase_plain value)
  constructor
  case root => simpa [Expr.children] using bare
  case assigns => simp [Expr.assigns]
  case numbers =>
    intro x member
    exact number_of_plain (numbers x (by simpa [Expr.subtrees] using member))
  case names =>
    intro text member
    exact names text (by simpa [Expr.subtrees] using member)
  case inOrder => exact .cons (.target name) (.cons .equals (phrase_inOrder value))
  case count =>
    have count := phrase_count value
    rw [visits_eq_size] at count ⊢
    simp only [Expr.size, Expr.assigns, Token.isParen, List.countP_cons, List.length_cons]
    simp
    omega

/-- The tree of an accepted line is well formed, and read in order it is the tokens of the line but for the
    parentheses. -/
theorem ofTokens_yield {ts : List Placed} {e : Expr} (accepted : Expr.ofTokens ts = .ok e) :
    e.YieldOf (tokensOf ts) := by
  rcases ofTokens_ok_iff.mp accepted with ⟨name, rest, value, line, rfl, whole⟩ | ⟨plain, whole⟩
  · rw [line]
    exact yield_assignment name (whole_iff_phrase.mp whole).1
  · exact yield_expression (whole_iff_phrase.mp whole).1 plain

/-- Both minus signs, a group in a group and an infinite number: five nodes from ten tokens. -/
theorem ofTokens_yield_assignment :
    let line : List Placed :=
      [⟨.word "x", 0⟩, ⟨.equals, 2⟩, ⟨.minus, 4⟩, ⟨.openParen, 5⟩, ⟨.openParen, 6⟩, ⟨.word "1e999", 7⟩,
        ⟨.closeParen, 12⟩, ⟨.minus, 14⟩, ⟨.word "y", 16⟩, ⟨.closeParen, 17⟩]
    let e : Expr := .assignment "x" (.negation (.binary .sub
      (.number (Literal.toFloat ⟨['1'], [], false, ['9', '9', '9']⟩)) (.name "y")))
    Expr.ofTokens line = .ok e ∧ e.YieldOf (tokensOf line) := by
  intro line e
  have accepted : Expr.ofTokens line = .ok e := ofTokens_eq line
  exact ⟨accepted, ofTokens_yield accepted⟩

end Calculator
