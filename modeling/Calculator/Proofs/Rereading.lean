import Calculator.Proofs.Rendering

/- Reading the tokens of a written tree. Its shape stays, so reading fails on it only at a sign after
   a sign or at a group too many, and otherwise changes at most operands. -/
namespace Calculator

def Expr.height : Expr → Nat
  | .number _ | .name _ => 0
  | .negation e | .assignment _ e => e.height
  | .binary _ l r => max l.height r.height + 1

def Expr.negates : Expr → Bool
  | .negation _ => true
  | _ => false

/-- What the tokens of a tree without assignments are read as: operands may change, the shape stays,
    and a sign is not read after a sign. -/
inductive Rereads : Expr → Expr → Prop where
  | number {x : Float} {e : Expr} (read : Expr.ofWord (Expr.number x).text = .ok e) :
      Rereads (.number x) e
  | name {text : String} {e : Expr} (read : Expr.ofWord text = .ok e) : Rereads (.name text) e
  | negation {e e' : Expr} (single : e.negates = false) (inner : Rereads e e') :
      Rereads (.negation e) (.negation e')
  | binary {op : BinaryOp} {l l' r r' : Expr} (left : Rereads l l') (right : Rereads r r') :
      Rereads (.binary op l r) (.binary op l' r')

variable {goal : Goal} {limit : Nat}

theorem takes_minus_iff {level : Level} {outer : List Level} {next : State} :
    Takes goal limit (.before level outer) .minus next ↔
      level.negated = false ∧ next = .before { level with negated := true } outer := by
  constructor
  · intro taken
    cases taken with
    | sign => exact ⟨rfl, rfl⟩
  · obtain ⟨sum, product, negated⟩ := level
    intro free
    obtain ⟨rfl, rfl⟩ := free
    exact .sign

theorem takes_openParen_iff {level : Level} {outer : List Level} {next : State} :
    Takes goal limit (.before level outer) .openParen next ↔
      outer.length < limit ∧ next = .before .empty (level :: outer) := by
  constructor
  · intro taken
    cases taken with
    | group room => exact ⟨room, rfl⟩
  · intro free
    obtain ⟨room, rfl⟩ := free
    exact .group room

theorem takes_word_iff {level : Level} {outer : List Level} {text : String} {next : State} :
    Takes goal limit (.before level outer) (.word text) next ↔
      ∃ e, Expr.ofWord text = .ok e ∧ next = level.accept outer e := by
  constructor
  · intro taken
    cases taken with
    | operand read => exact ⟨_, read, rfl⟩
  · intro word
    obtain ⟨e, read, rfl⟩ := word
    exact .operand read

def BinaryOp.waiting (op : BinaryOp) (left : Expr) : Level :=
  if op.isProduct then ⟨none, some (left, op), false⟩ else ⟨some (left, op), none, false⟩

theorem waiting_unsigned (op : BinaryOp) (left : Expr) : (op.waiting left).negated = false := by
  unfold BinaryOp.waiting
  split <;> rfl

theorem takes_operator (op : BinaryOp) (left : Expr) (level : Level) (outer : List Level) :
    Takes goal limit (Level.empty.accept (level :: outer) left) op.token
      (.before (op.waiting left) (level :: outer)) := by
  have sign := operator_token op
  unfold BinaryOp.waiting
  by_cases tight : op.isProduct = true
  · rw [if_pos tight]
    exact .product sign tight
  · rw [if_neg tight]
    exact .sum sign (by simpa using tight) (by simp)

theorem takes_closeParen (op : BinaryOp) (left right : Expr) (level : Level) (outer : List Level) :
    Takes goal limit ((op.waiting left).accept (level :: outer) right) .closeParen
      (level.accept outer (.binary op left right)) := by
  unfold BinaryOp.waiting
  split <;> exact .close

theorem reads_taken_iff {s mid last : State} {t : Token} {ts : List Token}
    (taken : Takes goal limit s t mid) :
    Reads goal limit s (t :: ts) last ↔ Reads goal limit mid ts last := by
  rw [reads_cons_iff]
  constructor
  · intro steps
    obtain ⟨next, first, rest⟩ := steps
    rwa [takes_unique taken first]
  · exact fun rest => ⟨mid, taken, rest⟩

theorem reads_tokens_iff {e : Expr} {P : Expr → Prop} (bare : e.Operands P) {level : Level}
    {outer : List Level} {rest : List Token} {last : State} (within : outer.length ≤ limit) :
    Reads goal limit (.before level outer) (e.tokens ++ rest) last ↔
      (level.negated = true → e.negates = false) ∧ outer.length + e.height ≤ limit ∧
        ∃ e', Rereads e e' ∧ Reads goal limit (level.accept outer e') rest last := by
  induction e generalizing level outer rest with
  | number x =>
    simp only [Expr.tokens, List.cons_append, List.nil_append, reads_cons_iff, takes_word_iff]
    constructor
    · intro reads
      obtain ⟨next, ⟨e, read, rfl⟩, others⟩ := reads
      rw [← number_text] at read
      exact ⟨fun _ => rfl, within, e, .number read, others⟩
    · intro operand
      obtain ⟨-, -, e, inner, others⟩ := operand
      cases inner with
      | number read => exact ⟨_, ⟨e, number_text x ▸ read, rfl⟩, others⟩
  | name text =>
    simp only [Expr.tokens, List.cons_append, List.nil_append, reads_cons_iff, takes_word_iff]
    constructor
    · intro reads
      obtain ⟨next, ⟨e, read, rfl⟩, others⟩ := reads
      exact ⟨fun _ => rfl, within, e, .name read, others⟩
    · intro operand
      obtain ⟨-, -, e, inner, others⟩ := operand
      cases inner with
      | name read => exact ⟨_, ⟨e, read, rfl⟩, others⟩
  | negation e ih =>
    simp only [Expr.tokens, List.cons_append, reads_cons_iff, takes_minus_iff]
    constructor
    · intro reads
      obtain ⟨next, ⟨unsigned, rfl⟩, others⟩ := reads
      obtain ⟨single, room, e', inner, others⟩ := (ih bare within).mp others
      refine ⟨by simp [unsigned], room, _, .negation (single rfl) inner, ?_⟩
      simpa [Level.accept, Level.term, unsigned] using others
    · intro operand
      obtain ⟨free, room, e', inner, others⟩ := operand
      have unsigned : level.negated = false := by
        cases negated : level.negated with
        | false => rfl
        | true => cases free negated
      cases inner with
      | negation single inner =>
        refine ⟨_, ⟨unsigned, rfl⟩, (ih bare within).mpr ⟨fun _ => single, room, _, inner, ?_⟩⟩
        simpa [Level.accept, Level.term, unsigned] using others
  | binary op l r ihl ihr =>
    simp only [Expr.tokens, List.cons_append, List.append_assoc, List.nil_append]
    have height : (Expr.binary op l r).height = max l.height r.height + 1 := rfl
    constructor
    · intro whole
      obtain ⟨next, opened, whole⟩ := reads_cons_iff.mp whole
      obtain ⟨room, rfl⟩ := takes_openParen_iff.mp opened
      have inside : (level :: outer).length ≤ limit := room
      obtain ⟨-, deep, l', left, whole⟩ := (ihl bare.1 inside).mp whole
      rw [reads_taken_iff (takes_operator op l' level outer)] at whole
      obtain ⟨-, deep', r', right, whole⟩ := (ihr bare.2 inside).mp whole
      rw [reads_taken_iff (takes_closeParen op l' r' level outer)] at whole
      simp only [List.length_cons] at deep deep'
      exact ⟨fun _ => rfl, by omega, _, .binary left right, whole⟩
    · intro operand
      obtain ⟨-, room, e', inner, whole⟩ := operand
      have inside : (level :: outer).length ≤ limit := by simp only [List.length_cons]; omega
      cases inner with
      | binary left right =>
        rename_i l' r'
        rw [← reads_taken_iff (takes_closeParen op l' r' level outer)] at whole
        have after := (ihr bare.2 inside).mpr ⟨by simp [waiting_unsigned],
          by simp only [List.length_cons]; omega, _, right, whole⟩
        rw [← reads_taken_iff (takes_operator op l' level outer)] at after
        have before := (ihl bare.1 inside).mpr ⟨by simp [Level.empty],
          by simp only [List.length_cons]; omega, _, left, after⟩
        exact .cons (takes_openParen_iff.mpr ⟨inside, rfl⟩) before
  | assignment target e ih => cases bare

theorem whole_tokens_iff {e e' : Expr} {P : Expr → Prop} (bare : e.Operands P) :
    Whole limit e.tokens e' ↔ Rereads e e' ∧ e.height ≤ limit := by
  have read {last : State} : Reads .expression limit .start (e.tokens ++ []) last ↔ _ :=
    reads_tokens_iff bare (Nat.zero_le limit)
  simp only [List.append_nil, List.length_nil, Nat.zero_add] at read
  constructor
  · intro read
    obtain ⟨last, reads, whole⟩ := read
    obtain ⟨-, room, e'', inner, _ | _⟩ := read.mp reads
    obtain rfl : e'' = e' := Option.some.inj whole
    exact ⟨inner, room⟩
  · intro operand
    obtain ⟨inner, room⟩ := operand
    exact ⟨_, read.mpr ⟨by simp [Level.empty], room, e', inner, .nil _⟩, rfl⟩

end Calculator
