import Calculator.Proofs.Grammar
import Calculator.Proofs.Operand

/- Reading phrases from a cursor, also from one that earlier readings left in the middle of a line and
   inside parentheses that will not close. A reading takes tokens, may spend one more on an error, and
   leaves the rest; the tokens taken tell the depth that it ends with. -/
namespace Calculator

def Goal.category : Goal → Category
  | .term => .term
  | .expression => .expression

/-- The tokens that do not end a phrase: its operators, and a parenthesis, which never follows one. -/
def Goal.continued : Goal → List Token
  | .term => [.star, .slash, .openParen]
  | .expression => [.plus, .minus, .star, .slash, .openParen]

/-- The cursors from which phrases are read. Inside a group a phrase is read just after the parenthesis
    that opens it. -/
inductive Cursor.Reached : Cursor → Prop where
  | start (ts : List Placed) : Reached (.start ts)
  | advance {c : Cursor} (before : c.Reached) : Reached c.advance.2
  | enter {c : Cursor} {t : Placed} (before : c.Reached) (next : c.next? = some t)
      (paren : t.token = .openParen) (room : c.depth < maxDepth) : Reached c.advance.2.enter
  | read {c : Cursor} (before : c.Reached) (goal : Goal) : Reached (c.read goal).2

structure Cursor.Inside (c : Cursor) : Prop where
  place : c.position ≤ c.tokens.size
  depth : c.depth ≤ maxDepth

def Cursor.upTo (c : Cursor) (position : Nat) : List Token :=
  tokensOf (c.tokens.extract c.position position).toList

def unclosed (ts : List Token) : Nat := ts.foldl Token.nest 0

/-- A parenthesis that is refused for its depth is the last token read, and it opens nothing. -/
def Fault.dropRefused : Fault → List Token → List Token
  | .nestedTooDeeply _, ts => ts.dropLast
  | _, ts => ts

structure Cursor.Contract (c : Cursor) (goal : Goal) : Prop where
  success : ∀ e q, (c.read goal).1 = .ok e ∧ (c.read goal).2.position = q ↔
    c.position < q ∧ q ≤ c.tokens.size ∧ Phrase goal.category (c.upTo q) e ∧
      deepest 0 (c.upTo q) ≤ maxDepth - c.depth ∧ ∀ t ∈ c.tokens[q]?, t.token ∉ goal.continued
  level : ∀ e, (c.read goal).1 = .ok e → (c.read goal).2.depth = c.depth
  failure : ∀ error, (c.read goal).1 = .error error →
    c.position ≤ (c.read goal).2.position ∧ (c.read goal).2.position ≤ c.tokens.size ∧
      (c.read goal).2.depth =
        c.depth + unclosed (error.fault.dropRefused (c.upTo (c.read goal).2.position))
  refused : ∀ error limit, (c.read goal).1 = .error error → error.fault = .nestedTooDeeply limit →
    (c.upTo (c.read goal).2.position).getLast? = some .openParen

/-- The tokens that a reading spends on its result, besides those that it takes. -/
inductive Spent : Except LineError Expr → List Token → Prop where
  | ok (e : Expr) : Spent (.ok e) []
  | none {error : LineError} (other : ∀ limit, error.fault ≠ .nestedTooDeeply limit) :
      Spent (.error error) []
  | word {error : LineError} (other : ∀ limit, error.fault ≠ .nestedTooDeeply limit)
      (text : String) : Spent (.error error) [.word text]
  | paren (limit column : Nat) : Spent (.error ⟨.nestedTooDeeply limit, column⟩) [.openParen]

variable {goal : Goal} {base limit column : Nat} {error : LineError} {c : Cursor}

theorem endsAt_iff {t : Token} : goal.EndsAt t ↔ t ∉ goal.continued := by
  cases goal <;> cases t <;>
    simp [Goal.EndsAt, Goal.continued, Token.operator?, BinaryOp.isProduct]

def State.outermost : State → Waiting
  | .before level outer => outer.foldl (fun _ around => around.sum) level.sum
  | .after sum _ outer => outer.foldl (fun _ around => around.sum) sum

theorem takes_outermost {s next : State} {t : Token} (taken : Takes .term limit s t next) :
    next.outermost = s.outermost := by
  cases taken with
  | sum sign loose inside =>
    rename_i sum term outer op
    -- a sum goes on only inside a group, where it is not the outermost level that changes
    cases outer with
    | nil => exact absurd rfl (inside rfl)
    | cons level outer => rfl
  | _ => rfl

theorem reads_outermost {s last : State} {ts : List Token} (reads : Reads .term limit s ts last) :
    last.outermost = s.outermost := by
  induction reads with
  | nil => rfl
  | cons first rest ih => exact ih.trans (takes_outermost first)

theorem term_of_reads {ts : List Token} {last : State} {e : Expr}
    (reads : Reads .term limit .start ts last) (whole : last.complete? = some e) :
    Phrase .term ts e := by
  have spans : last.Spans ts := reads_spans start_spans reads
  have waiting : last.outermost = none := reads_outermost reads
  cases spans with
  | before outside inner => cases whole
  | after outside first second =>
    cases outside with
    | cons inner rest => cases whole
    | nil =>
      cases waiting
      cases first
      obtain rfl := Option.some.inj whole
      exact second

theorem goal_phrase_iff {ts : List Token} {e : Expr} :
    (∃ last, Reads goal limit .start ts last ∧ last.complete? = some e) ↔
      Phrase goal.category ts e ∧ deepest 0 ts ≤ limit := by
  cases goal with
  | expression => exact whole_iff_phrase
  | term =>
    constructor
    · intro taken
      obtain ⟨last, reads, whole⟩ := taken
      exact ⟨term_of_reads reads whole, reads_deepest (Nat.zero_le limit) reads⟩
    · intro derived
      obtain ⟨phrase, within⟩ := derived
      have readAt : Category.term.ReadAt .term limit ts e := phrase_readAt phrase
      exact ⟨_, readAt none [] (by simpa using within), rfl⟩

theorem phrase_nonempty {category : Category} {ts : List Token} {e : Expr}
    (phrase : Phrase category ts e) : 0 < ts.length := by
  induction phrase with
  | operand read | group inner ih | negation inner ih => simp
  | primary inner ih | factor inner ih | term inner ih => exact ih
  | product left sign right ihl ihr | sum left sign right ihl ihr => simp

theorem reads_nest {s last : State} {ts : List Token} (reads : Reads goal limit s ts last) :
    last.depth = ts.foldl Token.nest s.depth := by
  induction reads with
  | nil => rfl
  | cons first rest ih => simp [ih, takes_nest first]

theorem reads_within {s last : State} {ts : List Token} (within : s.depth ≤ limit)
    (reads : Reads goal limit s ts last) : last.depth ≤ limit := by
  induction reads with
  | nil => exact within
  | cons first rest ih => exact ih (takes_within first within)

theorem spent_of_refuses {t : Placed} {counted : Bool}
    (refuses : Refuses t counted error.fault) :
    Spent (.error error) (if counted then [t.token] else []) := by
  obtain ⟨fault, column⟩ := error
  cases refuses with
  | word word failed =>
    rw [word]
    exact .word (by rcases ofWord_error failed with rfl | rfl <;> simp) _
  | deep paren =>
    rw [paren]
    exact .paren maxDepth column
  | operand | opening | unclosed => exact .none (by simp)

theorem read_parts (goal : Goal) (base column : Nat) (s : State) (ts : List Placed) :
    ∃ taken spent last, ts = taken ++ spent ++ (s.read goal base column ts).rest ∧
      Reads goal (maxDepth - base) s (tokensOf taken) last ∧
      (s.read goal base column ts).depth = base + last.depth ∧
      Spent (s.read goal base column ts).result (tokensOf spent) := by
  induction ts generalizing s with
  | nil =>
    refine ⟨[], [], s, rfl, .nil s, rfl, ?_⟩
    cases s with
    | before level outer => exact .none (by simp)
    | after sum term outer =>
      cases outer with
      | nil => exact .ok _
      | cons level outer => exact .none (by simp)
  | cons t ts ih =>
    cases fed : s.feed goal base t with
    | take next =>
      have step : s.read goal base column (t :: ts) = next.read goal base column ts := by
        simp [State.read, fed]
      obtain ⟨taken, spent, last, split, reads, depth, result⟩ := ih next
      rw [step]
      exact ⟨t :: taken, spent, last, congrArg (t :: ·) split, .cons (feed_take_iff.mp fed) reads,
        depth, result⟩
    | stop e =>
      have step : s.read goal base column (t :: ts) = ⟨.ok e, t :: ts, base + s.depth⟩ := by
        simp [State.read, fed]
      rw [step]
      exact ⟨[], [], s, rfl, .nil s, rfl, .ok e⟩
    | refuse counted error =>
      have step : s.read goal base column (t :: ts) =
          ⟨.error error, if counted then ts else t :: ts, base + s.depth⟩ := by
        simp [State.read, fed]
      have spent := spent_of_refuses (feed_refuse fed).2
      rw [step]
      cases counted with
      | true => exact ⟨[], [t], s, rfl, .nil s, rfl, spent⟩
      | false => exact ⟨[], [], s, rfl, .nil s, rfl, spent⟩

theorem read_eq_reading (c : Cursor) (goal : Goal) :
    (c.read goal).1 = (c.reading goal).result ∧ (c.read goal).2.remaining = (c.reading goal).rest ∧
      (c.read goal).2.depth = (c.reading goal).depth := by
  have plain (result : Except LineError Expr) : result.mapError id = result := by
    cases result <;> rfl
  cases goal with
  | term =>
    rcases multiplicative_reading (exact_follows c.tokens) with same | ⟨stop, -, halted⟩
    · rwa [plain] at same
    · cases halted
  | expression =>
    rcases additive_reading (exact_follows c.tokens) with same | ⟨stop, -, halted⟩
    · rwa [plain] at same
    · cases halted

theorem reading_ok {e : Expr} (ok : (c.read goal).1 = .ok e) :
    ∃ taken last, c.remaining = taken ++ (c.read goal).2.remaining ∧
      Reads goal (maxDepth - c.depth) .start (tokensOf taken) last ∧ last.complete? = some e ∧
      (c.read goal).2.depth = c.depth ∧
      ∀ t ∈ (c.read goal).2.next?, goal.EndsAt t.token := by
  obtain ⟨result, rest, depth⟩ := read_eq_reading c goal
  rw [ok] at result
  have read : c.reading goal = ⟨.ok e, (c.read goal).2.remaining, (c.read goal).2.depth⟩ := by
    rw [result, rest, depth]
  rw [next_eq]
  exact read_ok_iff.mp read

theorem read_within (within : c.position ≤ c.tokens.size) (goal : Goal) :
    (c.read goal).2.position ≤ c.tokens.size := by
  have inside := (c.phrase goal).2.within
  rwa [Nat.max_eq_right within] at inside

theorem next_of_read (c : Cursor) (goal : Goal) :
    (c.read goal).2.next? = c.tokens[(c.read goal).2.position]? := by
  have same : (c.read goal).2.tokens = c.tokens := (c.phrase goal).2.tokens
  rw [Cursor.next?, same]

theorem read_eq (within : c.position ≤ c.tokens.size) (goal : Goal) :
    c.read goal = ((c.reading goal).result,
      ⟨c.tokens, c.tokens.size - (c.reading goal).rest.length, (c.reading goal).depth⟩) := by
  obtain ⟨result, rest, depth⟩ := read_eq_reading c goal
  have same : (c.read goal).2.tokens = c.tokens := (c.phrase goal).2.tokens
  have inside := read_within within goal
  have left := congrArg List.length rest
  simp only [Cursor.remaining, same, List.length_drop, Array.length_toList] at left
  have place : (c.read goal).2.position = c.tokens.size - (c.reading goal).rest.length := by omega
  rw [← result, ← depth, ← place, ← same]

theorem upTo_eq (within : c.position ≤ c.tokens.size) {before : List Placed}
    (split : c.remaining = before ++ (c.read goal).2.remaining) :
    c.upTo (c.read goal).2.position = tokensOf before ∧
      c.position + before.length = (c.read goal).2.position := by
  have same : (c.read goal).2.tokens = c.tokens := (c.phrase goal).2.tokens
  have inside := read_within within goal
  have place : c.position + before.length = (c.read goal).2.position := by
    have count := congrArg List.length split
    simp only [Cursor.remaining, same, List.length_drop, List.length_append,
      Array.length_toList] at count
    omega
  have taken : before = c.remaining.take before.length := by rw [split, List.take_left]
  refine ⟨?_, place⟩
  rw [taken, ← place]
  simp [Cursor.upTo, Cursor.remaining, List.extract_eq_take_drop]

theorem remaining_until {place : Nat} (after : c.position ≤ place) :
    c.remaining = (c.tokens.extract c.position place).toList ++ c.tokens.toList.drop place := by
  have skip : c.tokens.toList.drop place =
      (c.tokens.toList.drop c.position).drop (place - c.position) := by
    rw [List.drop_drop]
    congr 1
    omega
  simp [Cursor.remaining, List.extract_eq_take_drop, skip]

theorem read_success_iff (within : c.position ≤ c.tokens.size) {e : Expr} {q : Nat} :
    (c.read goal).1 = .ok e ∧ (c.read goal).2.position = q ↔
      c.position < q ∧ q ≤ c.tokens.size ∧ Phrase goal.category (c.upTo q) e ∧
        deepest 0 (c.upTo q) ≤ maxDepth - c.depth ∧ ∀ t ∈ c.tokens[q]?, t.token ∉ goal.continued := by
  constructor
  · intro ended
    obtain ⟨ok, rfl⟩ := ended
    obtain ⟨taken, last, split, reads, whole, -, ends⟩ := reading_ok ok
    obtain ⟨tokens, place⟩ := upTo_eq within split
    obtain ⟨phrase, shallow⟩ := goal_phrase_iff.mp ⟨last, reads, whole⟩
    have some : 0 < taken.length := by simpa [tokensOf] using phrase_nonempty phrase
    refine ⟨by omega, read_within within goal, tokens ▸ phrase, tokens ▸ shallow, ?_⟩
    rw [← next_of_read]
    exact fun t next => endsAt_iff.mp (ends t next)
  · intro stands
    obtain ⟨further, inside, phrase, shallow, ends⟩ := stands
    obtain ⟨last, reads, whole⟩ := goal_phrase_iff.mpr ⟨phrase, shallow⟩
    have read : c.reading goal = ⟨.ok e, c.tokens.toList.drop q, c.depth⟩ := by
      refine read_ok_iff.mpr ⟨_, last, remaining_until (Nat.le_of_lt further), reads, whole, rfl, ?_⟩
      rw [List.head?_drop]
      exact fun t next => endsAt_iff.mpr (ends t (by simpa using next))
    obtain ⟨result, rest, -⟩ := read_eq_reading c goal
    simp only [read] at result rest
    refine ⟨result, ?_⟩
    have split := remaining_until (Nat.le_of_lt further)
    rw [← rest] at split
    obtain ⟨-, place⟩ := upTo_eq within split
    simp only [Array.length_toList, Array.size_extract] at place
    omega

theorem dropRefused_other {fault : Fault} (other : ∀ limit, fault ≠ .nestedTooDeeply limit)
    (ts : List Token) : fault.dropRefused ts = ts := by
  cases fault with
  | nestedTooDeeply limit => exact absurd rfl (other limit)
  | _ => rfl

theorem unclosed_spent {taken spent : List Token} (result : Spent (.error error) spent) :
    unclosed (error.fault.dropRefused (taken ++ spent)) = unclosed taken := by
  cases result with
  | none other => simp [dropRefused_other other]
  | word other text => simp [dropRefused_other other, unclosed, Token.nest]
  | paren limit column => simp [Fault.dropRefused]

theorem cursor_parts (within : c.position ≤ c.tokens.size) (goal : Goal) :
    ∃ taken spent last, c.upTo (c.read goal).2.position = taken ++ spent ∧
      c.position ≤ (c.read goal).2.position ∧
      Reads goal (maxDepth - c.depth) .start taken last ∧
      (c.read goal).2.depth = c.depth + last.depth ∧ Spent (c.read goal).1 spent := by
  obtain ⟨result, rest, level⟩ := read_eq_reading c goal
  obtain ⟨taken, spent, last, split, reads, depth, spends⟩ :=
    read_parts goal c.depth c.columnAfter .start c.remaining
  unfold Cursor.reading at result rest level
  rw [← rest] at split
  rw [← level] at depth
  rw [← result] at spends
  obtain ⟨tokens, place⟩ := upTo_eq within split
  have parts : tokensOf (taken ++ spent) = tokensOf taken ++ tokensOf spent := List.map_append
  exact ⟨tokensOf taken, tokensOf spent, last, tokens.trans parts, by omega, reads, depth, spends⟩

theorem reached_inside (reached : c.Reached) : c.Inside := by
  induction reached with
  | start ts => exact ⟨Nat.zero_le _, Nat.zero_le _⟩
  | @advance c before ih =>
    have within := c.step.within
    rw [Nat.max_eq_right ih.place, ← c.step.tokens] at within
    exact ⟨within, (step_depth c).symm ▸ ih.depth⟩
  | @enter c t before next paren room ih =>
    have within := c.step.within
    rw [Nat.max_eq_right ih.place, ← c.step.tokens] at within
    refine ⟨within, ?_⟩
    change c.step.cursor.depth + 1 ≤ maxDepth
    rw [step_depth]
    exact room
  | @read c before goal ih =>
    obtain ⟨taken, spent, last, -, -, reads, depth, -⟩ := cursor_parts ih.place goal
    have shallow : last.depth ≤ maxDepth - c.depth := reads_within (Nat.zero_le _) reads
    have below := ih.depth
    have same : (c.read goal).2.tokens = c.tokens := (c.phrase goal).2.tokens
    constructor
    · rw [same]
      exact read_within ih.place goal
    · omega

/-- From every cursor that is reached, reading a term or an expression takes exactly the phrase that
    stands there and leaves the depth as it was, or fails within the line and leaves open exactly the
    parentheses that it has read and not seen closed. -/
theorem reached_contract (reached : c.Reached) (goal : Goal) :
    c.depth ≤ maxDepth ∧ c.Contract goal := by
  obtain ⟨within, shallow⟩ := reached_inside reached
  obtain ⟨taken, spent, last, tokens, forward, reads, depth, result⟩ := cursor_parts within goal
  refine ⟨shallow, ?_⟩
  constructor
  case success => exact fun e q => read_success_iff within
  case level =>
    intro e ok
    obtain ⟨taken, last, -, -, -, level, -⟩ := reading_ok ok
    exact level
  case failure =>
    intro error failed
    rw [failed] at result
    refine ⟨forward, read_within within goal, ?_⟩
    rw [tokens, unclosed_spent result, depth, reads_nest reads]
    rfl
  case refused =>
    intro error limit failed deep
    rw [failed] at result
    rw [tokens]
    cases result with
    | none other => exact absurd deep (other limit)
    | word other text => exact absurd deep (other limit)
    | paren limit column => simp

/-- A group fails at a word, and the term that follows is read inside it. -/
theorem reached_contract_resumed :
    let line : List Placed :=
      [⟨.openParen, 0⟩, ⟨.word "a", 1⟩, ⟨.word "b", 3⟩, ⟨.star, 5⟩, ⟨.word "c", 7⟩]
    let c := ((Cursor.start line).read .expression).2
    c.position = 2 ∧ c.depth = 1 ∧
      (c.read .term).1 = .ok (.binary .mul (.name "b") (.name "c")) ∧
      (c.read .term).2.position = 5 ∧ (c.read .term).2.depth = 1 ∧
      c.depth ≤ maxDepth ∧ c.Contract .term := by
  intro line c
  have reached : c.Reached := .read (.start line) .expression
  have place : c = ⟨line.toArray, 2, 1⟩ :=
    congrArg Prod.snd (read_eq (c := .start line) (Nat.zero_le _) .expression)
  have term : c.read .term = (.ok (.binary .mul (.name "b") (.name "c")), ⟨line.toArray, 5, 1⟩) := by
    rw [place]
    exact read_eq (c := ⟨line.toArray, 2, 1⟩) (by decide) .term
  have contract := reached_contract reached .term
  rw [term]
  exact ⟨congrArg Cursor.position place, congrArg Cursor.depth place, rfl, rfl, rfl, contract⟩

end Calculator
