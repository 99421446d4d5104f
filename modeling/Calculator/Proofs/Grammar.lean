import Calculator.Grammar
import Calculator.Proofs.Line
import Mathlib.Data.Set.Subsingleton

/- The reader accepts exactly the grammar. From tokens to trees, what waits in a state is a sequence
   of phrases that spans the tokens taken so far; from trees to tokens, a phrase of each category
   can be read from the states where that category is due. -/
namespace Calculator

inductive Pending (c : Category) : Waiting → List Token → Prop where
  | none : Pending c none []
  | some {ts : List Token} {t : Token} {left : Expr} {op : BinaryOp} (phrase : Phrase c ts left)
      (sign : Sign c t op) : Pending c (some (left, op)) (ts ++ [t])

inductive Level.Spans : Level → List Token → Prop where
  | unsigned {sum product : Waiting} {ss ps : List Token} (first : Pending .expression sum ss)
      (second : Pending .term product ps) : Level.Spans ⟨sum, product, false⟩ (ss ++ ps)
  | signed {sum product : Waiting} {ss ps : List Token} (first : Pending .expression sum ss)
      (second : Pending .term product ps) :
      Level.Spans ⟨sum, product, true⟩ (ss ++ (ps ++ [.minus]))

/-- Levels set aside span the tokens up to the parenthesis opened last. -/
inductive Enclosing : List Level → List Token → Prop where
  | nil : Enclosing [] []
  | cons {level : Level} {outer : List Level} {ls os : List Token} (inner : level.Spans ls)
      (rest : Enclosing outer os) : Enclosing (level :: outer) (os ++ (ls ++ [.openParen]))

inductive State.Spans : State → List Token → Prop where
  | before {level : Level} {outer : List Level} {ls os : List Token} (outside : Enclosing outer os)
      (inner : level.Spans ls) : State.Spans (.before level outer) (os ++ ls)
  | after {sum : Waiting} {term : Expr} {outer : List Level} {ss ts os : List Token}
      (outside : Enclosing outer os) (first : Pending .expression sum ss)
      (second : Phrase .term ts term) : State.Spans (.after sum term outer) (os ++ (ss ++ ts))

variable {goal : Goal} {limit : Nat}

theorem sign_term_iff {t : Token} {op : BinaryOp} :
    Sign .term t op ↔ t.operator? = some op ∧ op.isProduct = true := by
  constructor
  · intro sign
    cases sign <;> exact ⟨rfl, rfl⟩
  · intro same
    obtain ⟨sign, tight⟩ := same
    cases t <;> cases sign <;> first | exact .star | exact .slash | cases tight

theorem sign_expression_iff {t : Token} {op : BinaryOp} :
    Sign .expression t op ↔ t.operator? = some op ∧ op.isProduct = false := by
  constructor
  · intro sign
    cases sign <;> exact ⟨rfl, rfl⟩
  · intro same
    obtain ⟨sign, loose⟩ := same
    cases t <;> cases sign <;> first | exact .plus | exact .minus | cases loose

theorem sign_operator {c : Category} {t : Token} {op : BinaryOp} (sign : Sign c t op) :
    t.operator? = some op := by
  cases sign <;> rfl

theorem start_spans : State.start.Spans [] := .before .nil (.unsigned .none .none)

theorem pending_sum {sum : Waiting} {ss ts : List Token} {e : Expr}
    (first : Pending .expression sum ss) (second : Phrase .term ts e) :
    Phrase .expression (ss ++ ts) (sum.join e) := by
  cases first with
  | none => exact .term second
  | some left sign =>
    rw [List.append_assoc]
    exact .sum left sign second

theorem pending_product {product : Waiting} {ps ts : List Token} {e : Expr}
    (first : Pending .term product ps) (second : Phrase .factor ts e) :
    Phrase .term (ps ++ ts) (product.join e) := by
  cases first with
  | none => exact .factor second
  | some left sign =>
    rw [List.append_assoc]
    exact .product left sign second

theorem accept_spans {level : Level} {outer : List Level} {ls os ts : List Token} {e : Expr}
    (outside : Enclosing outer os) (inner : level.Spans ls) (primary : Phrase .primary ts e) :
    (level.accept outer e).Spans (os ++ (ls ++ ts)) := by
  cases inner with
  | unsigned first second =>
    rw [List.append_assoc]
    exact .after outside first (pending_product second (.primary primary))
  | signed first second =>
    rw [List.append_assoc, List.append_assoc]
    exact .after outside first (pending_product second (.negation primary))

theorem takes_spans {s next : State} {ts : List Token} {t : Token} (spans : s.Spans ts)
    (taken : Takes goal limit s t next) : next.Spans (ts ++ [t]) := by
  cases taken with
  | sign =>
    cases spans with
    | before outside inner =>
      cases inner with
      | unsigned first second =>
        rw [List.append_assoc, List.append_assoc]
        exact .before outside (.signed first second)
  | group room =>
    cases spans with
    | before outside inner =>
      rw [List.append_assoc, ← List.append_nil (_ ++ (_ ++ [Token.openParen]))]
      exact .before (.cons inner outside) (.unsigned .none .none)
  | operand read =>
    cases spans with
    | before outside inner =>
      rw [List.append_assoc]
      exact accept_spans outside inner (.operand read)
  | close =>
    cases spans with
    | after outside first second =>
      cases outside with
      | cons inner rest =>
        have group := Phrase.group (pending_sum first second)
        simpa using accept_spans rest inner group
  | product sign tight =>
    cases spans with
    | after outside first second =>
      rw [List.append_assoc, List.append_assoc]
      exact .before outside (.unsigned first (.some second (sign_term_iff.mpr ⟨sign, tight⟩)))
  | sum sign loose inside =>
    cases spans with
    | after outside first second =>
      rw [List.append_assoc, ← List.append_nil (_ ++ [_])]
      have joins := sign_expression_iff.mpr ⟨sign, loose⟩
      exact .before outside (.unsigned (.some (pending_sum first second) joins) .none)

theorem reads_spans {s last : State} {ts us : List Token} (spans : s.Spans ts)
    (reads : Reads goal limit s us last) : last.Spans (ts ++ us) := by
  induction reads generalizing ts with
  | nil => simpa using spans
  | cons first rest ih => simpa using ih (takes_spans spans first)

theorem operator_nest {t : Token} {op : BinaryOp} (sign : t.operator? = some op) (depth : Nat) :
    t.nest depth = depth := by
  cases t <;> simp_all [Token.operator?, Token.nest]

theorem takes_nest {s next : State} {t : Token} (taken : Takes goal limit s t next) :
    next.depth = t.nest s.depth := by
  cases taken with
  | sign | group room | operand read | close => rfl
  | product sign tight => exact (operator_nest sign _).symm
  | sum sign loose inside => exact (operator_nest sign _).symm

theorem reads_deepest {s last : State} {ts : List Token} (within : s.depth ≤ limit)
    (reads : Reads goal limit s ts last) : deepest s.depth ts ≤ limit := by
  induction reads with
  | nil => exact within
  | cons first rest ih =>
    rw [deepest, ← takes_nest first]
    exact Nat.max_le.mpr ⟨within, ih (takes_within first within)⟩

theorem deepest_append (depth : Nat) (ts us : List Token) :
    deepest depth (ts ++ us) =
      max (deepest depth ts) (deepest (ts.foldl Token.nest depth) us) := by
  induction ts generalizing depth with
  | nil =>
    have : depth ≤ deepest depth us := by cases us <;> simp [deepest]
    simp [deepest, this]
  | cons t ts ih => simp [deepest, ih, Nat.max_assoc]

theorem phrase_balanced {c : Category} {ts : List Token} {e : Expr} (phrase : Phrase c ts e)
    (depth : Nat) : ts.foldl Token.nest depth = depth ∧ deepest depth ts = depth + deepest 0 ts := by
  induction phrase generalizing depth with
  | operand read => simp [Token.nest, deepest]
  | group inner ih =>
    obtain ⟨closed, shift⟩ := ih (depth + 1)
    obtain ⟨closed', shift'⟩ := ih 1
    simp [Token.nest, deepest, deepest_append, closed, shift, closed', shift']
    omega
  | primary inner ih => exact ih depth
  | negation inner ih =>
    obtain ⟨closed, shift⟩ := ih depth
    simp [Token.nest, deepest, closed, shift]
  | factor inner ih => exact ih depth
  | term inner ih => exact ih depth
  | product left sign right ihl ihr | sum left sign right ihl ihr =>
    have same := operator_nest (sign_operator sign)
    have closed := fun depth => (ihl depth).1
    have shift := (ihl depth).2
    have shift' := (ihr depth).2
    simp [deepest, deepest_append, closed, same, shift, shift', (ihr depth).1]

/-- From where a phrase of a category can be read, and to where it leads. -/
def Category.ReadAt (goal : Goal) (limit : Nat) (ts : List Token) (e : Expr) : Category → Prop
  | .primary => ∀ level outer, outer.length + deepest 0 ts ≤ limit →
      Reads goal limit (.before level outer) ts (level.accept outer e)
  | .factor => ∀ sum product outer, outer.length + deepest 0 ts ≤ limit →
      Reads goal limit (.before ⟨sum, product, false⟩ outer) ts (.after sum (product.join e) outer)
  | .term => ∀ sum outer, outer.length + deepest 0 ts ≤ limit →
      Reads goal limit (.before ⟨sum, none, false⟩ outer) ts (.after sum e outer)
  | .expression => ∀ outer, (goal = .term → outer ≠ []) → outer.length + deepest 0 ts ≤ limit →
      ∃ sum term, Reads goal limit (.before .empty outer) ts (.after sum term outer) ∧
        sum.join term = e

theorem phrase_readAt {c : Category} {ts : List Token} {e : Expr} (phrase : Phrase c ts e) :
    c.ReadAt goal limit ts e := by
  induction phrase with
  | operand read =>
    intro level outer within
    exact reads_single (.operand read)
  | group inner ih =>
    intro level outer within
    obtain ⟨closed, shift⟩ := phrase_balanced inner 1
    simp only [deepest, deepest_append, Token.nest, closed, shift] at within
    obtain ⟨sum, term, reads, rfl⟩ := ih (level :: outer) (by simp) (by simp; omega)
    exact .cons (.group (by omega)) (reads_append reads (reads_single .close))
  | primary inner ih =>
    intro sum product outer within
    exact ih ⟨sum, product, false⟩ outer within
  | negation inner ih =>
    intro sum product outer within
    exact .cons .sign (ih ⟨sum, product, true⟩ outer (by simpa [deepest, Token.nest] using within))
  | factor inner ih =>
    intro sum outer within
    exact ih sum none outer within
  | product left sign right ihl ihr =>
    obtain ⟨sign, tight⟩ := sign_term_iff.mp sign
    intro sum outer within
    rw [deepest_append, (phrase_balanced left 0).1, deepest, operator_nest sign] at within
    exact reads_append (ihl sum outer (by omega))
      (.cons (.product sign tight) (ihr sum _ outer (by omega)))
  | term inner ih =>
    intro outer inside within
    exact ⟨none, _, ih none outer within, rfl⟩
  | sum left sign right ihl ihr =>
    obtain ⟨sign, loose⟩ := sign_expression_iff.mp sign
    intro outer inside within
    rw [deepest_append, (phrase_balanced left 0).1, deepest, operator_nest sign] at within
    obtain ⟨sum, term, reads, rfl⟩ := ihl outer inside (by omega)
    exact ⟨_, _, reads_append reads (.cons (.sum sign loose inside) (ihr _ outer (by omega))), rfl⟩

theorem whole_iff_phrase {ts : List Token} {e : Expr} :
    Whole limit ts e ↔ Phrase .expression ts e ∧ deepest 0 ts ≤ limit := by
  constructor
  · intro accepted
    obtain ⟨last, reads, whole⟩ := accepted
    refine ⟨?_, reads_deepest (Nat.zero_le limit) reads⟩
    have spans : last.Spans ts := reads_spans start_spans reads
    cases spans with
    | before outside inner => cases whole
    | after outside first second =>
      cases outside with
      | nil =>
        obtain rfl := Option.some.inj whole
        rw [List.nil_append]
        exact pending_sum first second
      | cons inner rest => cases whole
  · intro derived
    obtain ⟨phrase, within⟩ := derived
    have readAt : Category.expression.ReadAt .expression limit ts e := phrase_readAt phrase
    obtain ⟨sum, term, reads, rfl⟩ := readAt [] (by simp) (by simpa using within)
    exact ⟨_, reads, rfl⟩

theorem phrase_unique {ts : List Token} {e e' : Expr} (one : Phrase .expression ts e)
    (other : Phrase .expression ts e') : e = e' := by
  obtain ⟨last, reads, whole⟩ := whole_iff_phrase.mpr ⟨one, Nat.le_refl (deepest 0 ts)⟩
  obtain ⟨last', reads', whole'⟩ := whole_iff_phrase.mpr ⟨other, Nat.le_refl (deepest 0 ts)⟩
  obtain rfl := reads_unique reads reads'
  exact Option.some.inj (whole.symm.trans whole')

theorem linePhrase_unique {ts : List Token} {e e' : Expr} (one : LinePhrase ts e)
    (other : LinePhrase ts e') : e = e' := by
  cases one with
  | assignment value =>
    cases other with
    | assignment value' => rw [phrase_unique value value']
    | expression plain whole => simp at plain
  | expression plain whole =>
    cases other with
    | assignment value' => simp at plain
    | expression plain' whole' => exact phrase_unique whole whole'

theorem ofTokens_derived_iff {ts : List Placed} {e : Expr} :
    Expr.ofTokens ts = .ok e ↔
      LinePhrase (tokensOf ts) e ∧ deepest 0 (tokensOf ts) ≤ maxDepth := by
  rw [ofTokens_ok_iff, whole_iff_phrase]
  constructor
  · intro accepted
    rcases accepted with ⟨name, rest, value, same, rfl, whole⟩ | ⟨plain, phrase, within⟩
    · obtain ⟨phrase, within⟩ := whole_iff_phrase.mp whole
      rw [same]
      exact ⟨.assignment phrase, by simpa [deepest, Token.nest] using within⟩
    · exact ⟨.expression plain phrase, within⟩
  · intro derived
    obtain ⟨line, within⟩ := derived
    generalize tokensOf ts = tokens at line within
    cases line with
    | assignment phrase =>
      refine .inl ⟨_, _, _, rfl, rfl, whole_iff_phrase.mpr ⟨phrase, ?_⟩⟩
      simpa [deepest, Token.nest] using within
    | expression plain phrase => exact .inr ⟨plain, phrase, within⟩

/-- A line is accepted with a tree exactly where the grammar gives it that tree and no more than 512
    parentheses are ever open; and the grammar gives it one tree at most. Sums of offsets may wrap around.
    Where they stop the program instead, they do so only for a token that ends beyond the words. -/
theorem ofTokens_ok_iff_linePhrase (ts : List Placed) :
    (∀ e, Expr.ofTokens ts = .ok e ↔
      LinePhrase (tokensOf ts) e ∧ deepest 0 (tokensOf ts) ≤ 512) ∧
    (∀ e, Expr.parse .wrapping ts = .ok e ↔
      LinePhrase (tokensOf ts) e ∧ deepest 0 (tokensOf ts) ≤ 512) ∧
    ((∀ e, Expr.parse .checked ts = .ok e ↔
      LinePhrase (tokensOf ts) e ∧ deepest 0 (tokensOf ts) ≤ 512) ∨
      Expr.parse .checked ts = .error .overflow ∧ ∃ t ∈ ts, wordSize ≤ t.stop + 1) ∧
    {e | LinePhrase (tokensOf ts) e}.Subsingleton := by
  have exact (e : Expr) : Expr.ofTokens ts = .ok e ↔
      LinePhrase (tokensOf ts) e ∧ deepest 0 (tokensOf ts) ≤ 512 := ofTokens_derived_iff
  refine ⟨exact, fun e => ?_, ?_, fun e one e' other => linePhrase_unique one other⟩
  · rw [parse_wrapping, mapError_eq_ok_iff, exact]
  · rcases parse_checked ts with same | overflow
    · refine .inl fun e => ?_
      rw [same, mapError_eq_ok_iff, exact]
    · exact .inr overflow

end Calculator
