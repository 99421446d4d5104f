import Calculator.Proofs.Effects
import Calculator.Proofs.Rereading

/- Which trees are read back from their text. The trees that reading gives are made of words, and
   such trees are read back where their operands are and no sign or group is in the way. -/
namespace Calculator

def Expr.subtrees : Expr → List Expr
  | .number x => [.number x]
  | .name text => [.name text]
  | .negation e => .negation e :: e.subtrees
  | .binary op l r => .binary op l r :: (l.subtrees ++ r.subtrees)
  | .assignment target e => .assignment target e :: e.subtrees

structure Expr.Rereadable (e : Expr) : Prop where
  /-- An assignment stands at the root only. -/
  bare : ∀ child ∈ e.children, ∀ sub ∈ child.subtrees, sub.assigns = false
  target : ∀ target value, e = .assignment target value → IsWord target
  numbers : ∀ x, .number x ∈ e.subtrees → IsUnsigned x
  names : ∀ text, .name text ∈ e.subtrees → IsWord text ∧ StartsWithLetter text
  signs : ∀ operand, .negation (.negation operand) ∉ e.subtrees
  height : e.height ≤ maxDepth

variable {limit : Nat}

theorem phrase_spelled {c : Category} {ts : List Token} {e : Expr} (phrase : Phrase c ts e)
    (words : ∀ text, .word text ∈ ts → IsWord text) : e.Spelled := by
  apply phrase_operands phrase
  intro word e member read
  rcases ofWord_ok read with ⟨literal, same⟩ | ⟨same, -⟩
  · rw [same, number_text]
    exact writeNumber_isWord (literal_toFloat literal)
  · rw [same, name_text]
    exact words word member

theorem whole_spelled {ts : List Token} {e : Expr} (whole : Whole limit ts e)
    (words : ∀ text, .word text ∈ ts → IsWord text) : e.Spelled :=
  phrase_spelled (whole_iff_phrase.mp whole).1 words

theorem line_words {line text : String} (member : .word text ∈ tokensOf (lex line)) :
    IsWord text := by
  obtain ⟨t, placed, same⟩ := List.mem_map.mp member
  exact lex_words placed same

theorem negates_eq_false_iff {e : Expr} :
    e.negates = false ↔ ∀ operand, e ≠ .negation operand := by
  cases e <;> simp [Expr.negates]

theorem rereads_self_iff {e : Expr} {P : Expr → Prop} (bare : e.Operands P) :
    Rereads e e ↔ e.Operands (fun operand => Expr.ofWord operand.text = .ok operand) ∧
      ∀ operand, .negation (.negation operand) ∉ e.subtrees := by
  induction e with
  | number x =>
    simp only [Expr.Operands, Expr.subtrees, List.mem_singleton, reduceCtorEq, not_false_eq_true,
      implies_true, and_true]
    exact ⟨fun | .number read => read, .number⟩
  | name text =>
    simp only [Expr.Operands, name_text, Expr.subtrees, List.mem_singleton, reduceCtorEq,
      not_false_eq_true, implies_true, and_true]
    exact ⟨fun | .name read => read, .name⟩
  | negation e ih =>
    have split : Rereads (.negation e) (.negation e) ↔ e.negates = false ∧ Rereads e e :=
      ⟨fun | .negation single inner => ⟨single, inner⟩, fun ⟨single, inner⟩ => .negation single inner⟩
    rw [split, ih bare, negates_eq_false_iff]
    simp only [Expr.Operands, Expr.subtrees, List.mem_cons, Expr.negation.injEq, not_or, forall_and,
      ne_eq, eq_comm (a := e)]
    exact and_left_comm
  | binary op l r ihl ihr =>
    have split : Rereads (.binary op l r) (.binary op l r) ↔ Rereads l l ∧ Rereads r r :=
      ⟨fun | .binary left right => ⟨left, right⟩, fun ⟨left, right⟩ => .binary left right⟩
    rw [split, ihl bare.1, ihr bare.2]
    simp only [Expr.Operands, Expr.subtrees, List.mem_cons, List.mem_append, reduceCtorEq, false_or,
      not_or, forall_and]
    exact and_and_and_comm
  | assignment target e ih => cases bare

theorem operands_and {P Q : Expr → Prop} {e : Expr} :
    e.Operands (fun operand => P operand ∧ Q operand) ↔ e.Operands P ∧ e.Operands Q := by
  induction e with
  | number x => exact Iff.rfl
  | name text => exact Iff.rfl
  | negation e ih => exact ih
  | binary op l r ihl ihr =>
    simp only [Expr.Operands, ihl, ihr]
    exact and_and_and_comm
  | assignment target e ih => exact (and_self_iff).symm

theorem operands_iff {P : Expr → Prop} {e : Expr} :
    e.Operands P ↔ (∀ sub ∈ e.subtrees, sub.assigns = false) ∧
      (∀ x, .number x ∈ e.subtrees → P (.number x)) ∧
      ∀ text, .name text ∈ e.subtrees → P (.name text) := by
  induction e with
  | number x => simp [Expr.Operands, Expr.subtrees, Expr.assigns]
  | name text => simp [Expr.Operands, Expr.subtrees, Expr.assigns]
  | negation e ih => simp [Expr.Operands, Expr.subtrees, Expr.assigns, ih]
  | binary op l r ihl ihr =>
    simp only [Expr.Operands, ihl, ihr, Expr.subtrees, List.mem_cons, List.mem_append, reduceCtorEq,
      false_or, or_imp, forall_and, forall_eq, Expr.assigns, true_and]
    constructor
    · intro sides
      obtain ⟨⟨bare, numbers, names⟩, bare', numbers', names'⟩ := sides
      exact ⟨⟨bare, bare'⟩, ⟨numbers, numbers'⟩, names, names'⟩
    · intro parts
      obtain ⟨⟨bare, bare'⟩, ⟨numbers, numbers'⟩, names, names'⟩ := parts
      exact ⟨⟨bare, numbers, names⟩, bare', numbers', names'⟩
  | assignment target e ih => simp [Expr.Operands, Expr.subtrees, Expr.assigns]

structure Expr.ReadsBack (e : Expr) : Prop where
  operands : e.Operands fun operand => IsWord operand.text ∧ Expr.ofWord operand.text = .ok operand
  signs : ∀ operand, .negation (.negation operand) ∉ e.subtrees
  height : e.height ≤ maxDepth

theorem whole_readsBack_iff {e : Expr} (spelled : e.Spelled) :
    Whole maxDepth e.tokens e ↔ e.ReadsBack := by
  rw [whole_tokens_iff spelled, rereads_self_iff spelled]
  constructor
  · intro reads
    obtain ⟨⟨operands, signs⟩, height⟩ := reads
    exact ⟨operands_and.mpr ⟨spelled, operands⟩, signs, height⟩
  · intro back
    obtain ⟨operands, signs, height⟩ := back
    exact ⟨⟨(operands_and.mp operands).2, signs⟩, height⟩

theorem ofTokens_expression_iff {e : Expr} (bare : e.assigns = false) :
    Expr.ofTokens (lex e.text) = .ok e ↔ e.ReadsBack := by
  constructor
  · intro line
    rcases ofTokens_ok_iff.mp line with ⟨name, rest, value, -, rfl, -⟩ | ⟨-, whole⟩
    · cases bare
    · have spelled := whole_spelled whole fun _ => line_words
      rw [tokensOf_lex_text spelled] at whole
      exact (whole_readsBack_iff spelled).mp whole
  · intro reads
    have spelled : e.Spelled := (operands_and.mp reads.operands).1
    apply ofTokens_of_whole
    rw [tokensOf_lex_text spelled]
    exact (whole_readsBack_iff spelled).mpr reads

theorem ofTokens_assignment_iff {target : String} {e : Expr} :
    Expr.ofTokens (lex (Expr.assignment target e).text) = .ok (.assignment target e) ↔
      IsWord target ∧ e.ReadsBack := by
  rw [ofTokens_ok_iff]
  constructor
  · intro line
    rcases line with ⟨name, rest, value, line, same, whole⟩ | ⟨-, whole⟩
    · obtain ⟨rfl, rfl⟩ := Expr.assignment.inj same
      have words (text : String) (member : .word text ∈ Token.word target :: .equals :: rest) :
          IsWord text := line_words (line ▸ member)
      have word := words target (by simp)
      have spelled := whole_spelled whole fun text member => words text (by simp [member])
      rw [tokensOf_lex_assignment word spelled] at line
      obtain ⟨-, -, rfl⟩ : target = target ∧ Token.equals = .equals ∧ e.tokens = rest := by
        simpa [Expr.tokens] using line
      exact ⟨word, (whole_readsBack_iff spelled).mp whole⟩
    · cases whole_spelled whole fun _ => line_words
  · intro parts
    obtain ⟨word, reads⟩ := parts
    have spelled : e.Spelled := (operands_and.mp reads.operands).1
    rw [tokensOf_lex_assignment word spelled]
    exact .inl ⟨target, e.tokens, e, rfl, rfl, (whole_readsBack_iff spelled).mpr reads⟩

theorem number_reads_iff {x : Float} :
    IsWord (Expr.number x).text ∧ Expr.ofWord (Expr.number x).text = .ok (.number x) ↔
      IsUnsigned x := by
  rw [number_text, ofWord_writeNumber_iff]
  exact ⟨And.right, fun unsigned => ⟨writeNumber_isWord (.inr unsigned), unsigned⟩⟩

theorem name_reads_iff {text : String} :
    IsWord (Expr.name text).text ∧ Expr.ofWord (Expr.name text).text = .ok (.name text) ↔
      IsWord text ∧ StartsWithLetter text := by
  rw [name_text, ofWord_name_iff]
  simp

theorem readsBack_iff {e : Expr} : e.ReadsBack ↔ (∀ sub ∈ e.subtrees, sub.assigns = false) ∧
    (∀ x, .number x ∈ e.subtrees → IsUnsigned x) ∧
    (∀ text, .name text ∈ e.subtrees → IsWord text ∧ StartsWithLetter text) ∧
    (∀ operand, .negation (.negation operand) ∉ e.subtrees) ∧ e.height ≤ maxDepth := by
  constructor
  · intro back
    obtain ⟨operands, signs, height⟩ := back
    obtain ⟨bare, numbers, names⟩ := operands_iff.mp operands
    exact ⟨bare, fun x member => number_reads_iff.mp (numbers x member),
      fun text member => name_reads_iff.mp (names text member), signs, height⟩
  · intro parts
    obtain ⟨bare, numbers, names, signs, height⟩ := parts
    refine ⟨operands_iff.mpr ⟨bare, fun x member => ?_, fun text member => ?_⟩, signs, height⟩
    · exact number_reads_iff.mpr (numbers x member)
    · exact name_reads_iff.mpr (names text member)

theorem subtrees_eq (e : Expr) : e.subtrees = e :: e.children.flatMap Expr.subtrees := by
  cases e <;> simp [Expr.subtrees, Expr.children]

theorem mem_subtrees_of_child {e child sub : Expr} (inside : child ∈ e.children)
    (below : sub ∈ child.subtrees) : sub ∈ e.subtrees := by
  rw [subtrees_eq]
  exact List.mem_cons_of_mem e (List.mem_flatMap.mpr ⟨child, inside, below⟩)

theorem rereadable_expression_iff {e : Expr} (bare : e.assigns = false) :
    e.Rereadable ↔ e.ReadsBack := by
  rw [readsBack_iff]
  constructor
  · intro form
    obtain ⟨inner, target, numbers, names, signs, height⟩ := form
    refine ⟨fun sub member => ?_, numbers, names, signs, height⟩
    rw [subtrees_eq] at member
    rcases List.mem_cons.mp member with rfl | below
    · exact bare
    · obtain ⟨child, inside, below⟩ := List.mem_flatMap.mp below
      exact inner child inside sub below
  · intro parts
    obtain ⟨all, numbers, names, signs, height⟩ := parts
    refine ⟨fun child inside sub below => all sub (mem_subtrees_of_child inside below), ?_, numbers,
      names, signs, height⟩
    intro target value same
    rw [same] at bare
    cases bare

theorem rereadable_assignment_iff {target : String} {e : Expr} :
    (Expr.assignment target e).Rereadable ↔ IsWord target ∧ e.ReadsBack := by
  have inside {sub : Expr} (operand : sub.assigns = false) :
      sub ∈ (Expr.assignment target e).subtrees ↔ sub ∈ e.subtrees := by
    rw [Expr.subtrees, List.mem_cons, or_iff_right]
    intro same
    rw [same] at operand
    cases operand
  rw [readsBack_iff]
  constructor
  · intro form
    obtain ⟨inner, word, numbers, names, signs, height⟩ := form
    exact ⟨word target e rfl, inner e (by simp [Expr.children]),
      fun x member => numbers x ((inside rfl).mpr member),
      fun text member => names text ((inside rfl).mpr member),
      fun operand member => signs operand ((inside rfl).mpr member), height⟩
  · intro parts
    obtain ⟨word, bare, numbers, names, signs, height⟩ := parts
    refine ⟨by simpa [Expr.children] using bare, ?_,
      fun x member => numbers x ((inside rfl).mp member),
      fun text member => names text ((inside rfl).mp member),
      fun operand member => signs operand ((inside rfl).mp member), height⟩
    intro name value same
    obtain ⟨rfl, rfl⟩ := Expr.assignment.inj same
    exact word

/-- A tree is read back from its text, with all its names and the same bits of its numbers, exactly
    where it is of the form that reading gives. -/
theorem ofTokens_text_iff (e : Expr) : Expr.ofTokens (lex e.text) = .ok e ↔ e.Rereadable := by
  cases bare : e.assigns with
  | false => rw [ofTokens_expression_iff bare, rereadable_expression_iff bare]
  | true =>
    cases e with
    | assignment target e => rw [ofTokens_assignment_iff, rereadable_assignment_iff]
    | _ => cases bare

end Calculator
