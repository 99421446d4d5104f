import Calculator.Proofs.Layout
import Calculator.Proofs.Operand
import Calculator.Proofs.Line

/- Which tokens can begin an accepted line. What the reader has taken can always be completed, and what
   it refuses it would refuse in every line with the same beginning, so an error stands at the first
   token with which no accepted line goes on. -/
namespace Calculator

def Accepted (ts : List Token) : Prop := ∃ line e, tokensOf line = ts ∧ Expr.ofTokens line = .ok e

def Viable (ts : List Token) : Prop := ∃ rest, Accepted (ts ++ rest)

/-- What stands before the expression of a line, if these tokens follow: nothing, or a target. -/
inductive Heading : List Token → List Token → Prop where
  | none {ts : List Token} (plain : ts[1]? ≠ some .equals) : Heading [] ts
  | target (name : String) (ts : List Token) : Heading [.word name, .equals] ts

/-- Reading breaks off at a token that is not taken, or at the end with something missing. -/
inductive Breaks (column : Nat) (s : State) (ts : List Placed) (error : LineError) : Prop where
  | token {before after : List Placed} {t : Placed} {last : State} (line : ts = before ++ t :: after)
      (reads : Reads .expression maxDepth s (tokensOf before) last)
      (stuck : ∀ next, ¬ Takes .expression maxDepth last t.token next)
      (place : error.column = t.column) (fault : error.fault ≠ .unexpectedEnd)
  | ending {last : State} (reads : Reads .expression maxDepth s (tokensOf ts) last)
      (unfinished : last.complete? = none) (place : error.column = column)
      (fault : error.fault = .unexpectedEnd ∨ error.fault = .missingCloseParen)

def LineError.AtEnd (error : LineError) (ts : List Placed) : Prop :=
  error.fault = .unexpectedEnd ∨ error.fault = .missingCloseParen ∧ error.column = columnAfter ts

/-- An error at a later token: the tokens before it begin an accepted line, with it they do not. One at
    the first token: it is no target, or begins no accepted expression. One at the end: the whole
    line begins a longer one that is accepted. There is no other place. -/
structure LineError.Earliest (error : LineError) (ts : List Placed) : Prop where
  later : ∀ k t, ts[k]? = some t → error.column = t.column → 1 ≤ k →
    Viable (tokensOf (ts.take k)) ∧ ¬ Viable (tokensOf (ts.take (k + 1)))
  first : ∀ t, ts[0]? = some t → error.column = t.column →
    ((tokensOf ts)[1]? = some .equals ∧ ∀ name, t.token ≠ .word name) ∨
    ∀ other e, Expr.ofTokens other = .ok e → e.assigns = false →
      (tokensOf other)[0]? ≠ some t.token
  ending : error.AtEnd ts → ∃ rest, rest ≠ [] ∧ Accepted (tokensOf ts ++ rest)
  placed : (∃ t ∈ ts, error.column = t.column) ∨ error.AtEnd ts

variable {goal : Goal} {base limit column : Nat} {error : LineError}

theorem closes (sum : Waiting) (term : Expr) (outer : List Level) :
    ∃ last e, Reads goal limit (.after sum term outer) (List.replicate outer.length .closeParen) last ∧
      last.complete? = some e := by
  induction outer generalizing sum term with
  | nil => exact ⟨_, _, .nil _, rfl⟩
  | cons level outer ih =>
    obtain ⟨last, e, reads, complete⟩ := ih level.sum (level.term (sum.join term))
    exact ⟨last, e, .cons .close reads, complete⟩

theorem completes (s : State) :
    ∃ rest last e, Reads goal limit s rest last ∧ last.complete? = some e ∧
      (s.complete? = none → rest ≠ []) := by
  cases s with
  | before level outer =>
    have read : Expr.ofWord "last" = .ok (.name "last") := by rfl
    obtain ⟨last, e, reads, complete⟩ := closes level.sum (level.term (.name "last")) outer
    exact ⟨_, last, e, .cons (.operand read) reads, complete, by simp⟩
  | after sum term outer =>
    obtain ⟨last, e, reads, complete⟩ := closes sum term outer
    refine ⟨_, last, e, reads, complete, ?_⟩
    cases outer with
    | nil => simp [State.complete?]
    | cons level outer => simp [List.replicate_succ]

theorem accepted_iff {head body : List Token} (heading : Heading head body) :
    Accepted (head ++ body) ↔ ∃ e, Whole maxDepth body e := by
  have placed (ts : List Token) : tokensOf (ts.map fun t => ⟨t, 0⟩) = ts := by
    simp [tokensOf, Function.comp_def]
  constructor
  · intro accepted
    obtain ⟨line, e, tokens, read⟩ := accepted
    rcases ofTokens_ok_iff.mp read with ⟨name, rest, value, form, -, whole⟩ | ⟨plain, whole⟩
    · rw [tokens] at form
      cases heading with
      | none plain =>
        obtain rfl : body = .word name :: .equals :: rest := form
        simp at plain
      | target name body =>
        obtain ⟨-, rfl⟩ : name = _ ∧ body = rest := by simpa using form
        exact ⟨value, whole⟩
    · rw [tokens] at plain whole
      cases heading with
      | none => exact ⟨e, whole⟩
      | target name body => simp at plain
  · intro whole
    obtain ⟨e, whole⟩ := whole
    cases heading with
    | none plain =>
      refine ⟨_, e, placed body, ofTokens_of_whole ?_⟩
      rwa [placed]
    | target name body =>
      refine ⟨_, .assignment name e, placed _, ofTokens_ok_iff.mpr (.inl ?_)⟩
      exact ⟨name, body, e, placed _, rfl, whole⟩

theorem heading_of_reads {head ts us : List Token} {s last : State} (heading : Heading head ts)
    (reads : Reads goal limit s us last) : Heading head us := by
  cases heading with
  | none plain =>
    apply Heading.none
    intro second
    exact equals_not_mem_of_reads reads (List.mem_of_getElem? second)
  | target name ts => exact .target name us

theorem heading_of_prefix {head ts us vs : List Token} (heading : Heading head (ts ++ us))
    (two : 2 ≤ (head ++ ts).length) : Heading head (ts ++ vs) := by
  cases heading with
  | none plain =>
    have inside : 1 < ts.length := two
    apply Heading.none
    rw [List.getElem?_append_left inside] at plain ⊢
    exact plain
  | target name => exact .target name _

theorem reads_viable {head body ts : List Token} {s : State} (heading : Heading head body)
    (reads : Reads .expression maxDepth .start ts s) :
    ∃ rest, Accepted (head ++ ts ++ rest) ∧ (s.complete? = none → rest ≠ []) := by
  obtain ⟨rest, last, e, others, complete, missing⟩ := completes s
  have whole := reads_append reads others
  refine ⟨rest, ?_, missing⟩
  rw [List.append_assoc]
  exact (accepted_iff (heading_of_reads heading whole)).mpr ⟨e, last, whole, complete⟩

theorem whole_not_stuck {ts rest : List Token} {t : Token} {s : State} {e : Expr}
    (reads : Reads .expression limit .start ts s)
    (stuck : ∀ next, ¬ Takes .expression limit s t next) : ¬ Whole limit (ts ++ t :: rest) e := by
  intro whole
  obtain ⟨last, all, -⟩ := whole
  obtain ⟨mid, first, second⟩ := reads_append_iff.mp all
  obtain rfl := reads_unique reads first
  cases second with
  | cons step others => exact stuck _ step

theorem stuck_not_viable {head ts after : List Token} {t : Token} {s : State}
    (heading : Heading head (ts ++ t :: after)) (reads : Reads .expression maxDepth .start ts s)
    (stuck : ∀ next, ¬ Takes .expression maxDepth s t next) (begun : head ++ ts ≠ []) :
    ¬ Viable (head ++ ts ++ [t]) := by
  intro viable
  obtain ⟨rest, accepted⟩ := viable
  have two : 2 ≤ (head ++ (ts ++ [t])).length := by
    have := List.length_pos_iff.mpr begun
    simp only [List.length_append, List.length_singleton] at this ⊢
    omega
  have same : Heading head (ts ++ [t] ++ after) := by simpa using heading
  have other : Heading head (ts ++ [t] ++ rest) := heading_of_prefix same two
  rw [List.append_assoc, List.append_assoc, ← List.append_assoc ts, accepted_iff other] at accepted
  obtain ⟨e, whole⟩ := accepted
  exact whole_not_stuck reads stuck (by simpa using whole)

theorem refuses_fault {t : Placed} {counted : Bool} {fault : Fault}
    (refuses : Refuses t counted fault) : fault ≠ .unexpectedEnd := by
  cases refuses with
  | word word failed => rcases ofWord_error failed with rfl | rfl <;> simp
  | _ => simp

theorem breaks_of_error {s : State} {ts : List Placed}
    (failed : (s.read .expression 0 column ts).atEnd = .error error) : Breaks column s ts error := by
  induction ts generalizing s with
  | nil =>
    cases s with
    | before level outer =>
      obtain rfl := Except.error.inj failed
      exact .ending (.nil _) rfl rfl (.inl rfl)
    | after sum term outer =>
      cases outer with
      | nil => cases failed
      | cons level outer =>
        obtain rfl := Except.error.inj failed
        exact .ending (.nil _) rfl rfl (.inr rfl)
  | cons t ts ih =>
    have stuck (other : ∀ next, s.feed .expression 0 t ≠ .take next) :
        ∀ next, ¬ Takes .expression maxDepth s t.token next := by
      intro next taken
      exact other next (feed_take_iff.mpr taken)
    rw [State.read] at failed
    cases fed : s.feed .expression 0 t with
    | take next =>
      rw [fed] at failed
      have first : Takes .expression maxDepth s t.token next := feed_take_iff.mp fed
      cases ih failed with
      | token line reads stuck place fault =>
        rename_i before after refused last
        have longer : Reads .expression maxDepth s (tokensOf (t :: before)) last := .cons first reads
        exact .token (congrArg (t :: ·) line) longer stuck place fault
      | ending reads unfinished place fault =>
        exact .ending (.cons first reads) unfinished place fault
    | stop e =>
      rw [fed] at failed
      obtain rfl := Except.error.inj failed
      exact .token (List.nil_append _).symm (.nil s) (stuck (by simp [fed])) rfl (by simp)
    | refuse counted refusal =>
      rw [fed] at failed
      obtain rfl := Except.error.inj failed
      obtain ⟨place, refuses⟩ := feed_refuse fed
      exact .token (List.nil_append _).symm (.nil s) (stuck (by simp [fed])) place
        (refuses_fault refuses)

theorem ofTokens_error {ts : List Placed} (rejected : Expr.ofTokens ts = .error error) :
    (∃ target offset rest, ts = target :: ⟨.equals, offset⟩ :: rest ∧
      (∀ name, target.token ≠ .word name) ∧
      error = ⟨.invalidTarget target.token.lexeme, target.column⟩) ∨
    ∃ head body, ts = head ++ body ∧ Heading (tokensOf head) (tokensOf body) ∧
      Breaks (columnAfter ts) .start body error := by
  by_cases second : (tokensOf ts)[1]? = some .equals
  · obtain ⟨⟨target, a⟩, b, rest, rfl⟩ := second_equals second
    cases target with
    | word name =>
      rw [ofTokens_assignment] at rejected
      refine .inr ⟨[⟨.word name, a⟩, ⟨.equals, b⟩], rest, rfl, .target name _, ?_⟩
      apply breaks_of_error
      cases read : (State.start.read .expression 0 _ rest).atEnd with
      | ok e => rw [read] at rejected; cases rejected
      | error found => rw [read] at rejected; exact rejected
    | _ => exact .inl ⟨_, b, rest, rfl, by simp, (Except.error.inj rejected).symm⟩
  · rw [ofTokens_plain second] at rejected
    exact .inr ⟨[], ts, rfl, .none second, breaks_of_error rejected⟩

variable {offset : Nat} {cs : List Char}

theorem earliest_of_target {target eq : Placed} {rest : List Placed}
    (laid : Laid offset cs (target :: eq :: rest)) (sign : eq.token = .equals)
    (mark : ∀ name, target.token ≠ .word name) :
    LineError.Earliest ⟨.invalidTarget target.token.lexeme, target.column⟩ (target :: eq :: rest) where
  later := by
    intro k t here same later
    have := index_of_column laid here (List.getElem?_cons_zero ..) same.symm
    omega
  first := by
    intro t here same
    obtain rfl : target = t := Option.some.inj here
    exact .inl ⟨congrArg some sign, mark⟩
  ending := by
    intro atEnd
    rcases atEnd with fault | ⟨fault, -⟩ <;> cases fault
  placed := .inl ⟨target, by simp, rfl⟩

theorem viable_until {head before after : List Placed} {t : Placed} {s : State}
    (heading : Heading (tokensOf head) (tokensOf (before ++ t :: after)))
    (reads : Reads .expression maxDepth .start (tokensOf before) s)
    (stuck : ∀ next, ¬ Takes .expression maxDepth s t.token next) (begun : head ++ before ≠ []) :
    Viable (tokensOf (head ++ before)) ∧ ¬ Viable (tokensOf (head ++ before ++ [t])) := by
  have followed : Heading (tokensOf head) (tokensOf before ++ t.token :: tokensOf after) := by
    simpa [tokensOf] using heading
  have some : tokensOf head ++ tokensOf before ≠ [] := by simpa [tokensOf] using begun
  constructor
  · obtain ⟨rest, accepted, -⟩ := reads_viable heading reads
    exact ⟨rest, by simpa [tokensOf] using accepted⟩
  · simpa [tokensOf] using stuck_not_viable followed reads stuck some

theorem not_first_of_stuck {t : Token} (stuck : ∀ next, ¬ Takes .expression maxDepth .start t next)
    {other : List Placed} {e : Expr} (read : Expr.ofTokens other = .ok e)
    (plain : e.assigns = false) : (tokensOf other)[0]? ≠ some t := by
  intro first
  rcases ofTokens_ok_iff.mp read with ⟨name, rest, value, -, same, -⟩ | ⟨-, whole⟩
  · rw [same] at plain
    cases plain
  · cases tokens : tokensOf other with
    | nil => simp [tokens] at first
    | cons u rest =>
      rw [tokens] at first whole
      obtain rfl : u = t := Option.some.inj first
      exact whole_not_stuck (.nil .start) stuck whole

theorem earliest_of_token {head before after : List Placed} {t : Placed} {s : State}
    (laid : Laid offset cs (head ++ before ++ t :: after))
    (heading : Heading (tokensOf head) (tokensOf (before ++ t :: after)))
    (reads : Reads .expression maxDepth .start (tokensOf before) s)
    (stuck : ∀ next, ¬ Takes .expression maxDepth s t.token next)
    (place : error.column = t.column) (fault : error.fault ≠ .unexpectedEnd) :
    error.Earliest (head ++ before ++ t :: after) := by
  have member : t ∈ head ++ before ++ t :: after := by simp
  have here : (head ++ before ++ t :: after)[(head ++ before).length]? = some t := by simp
  have index {k : Nat} {u : Placed} (there : (head ++ before ++ t :: after)[k]? = some u)
      (same : error.column = u.column) : k = (head ++ before).length :=
    index_of_column laid there here (same.symm.trans place)
  constructor
  case later =>
    intro k u there same later
    obtain rfl := index there same
    rw [List.take_add_one, List.take_left, here]
    exact viable_until heading reads stuck (List.length_pos_iff.mp later)
  case first =>
    intro u there same
    have empty : head ++ before = [] := List.length_eq_zero_iff.mp (index there same).symm
    obtain ⟨rfl, rfl⟩ := List.append_eq_nil_iff.mp empty
    obtain rfl : t = u := Option.some.inj there
    right
    cases reads
    intro other e read plain
    exact not_first_of_stuck stuck read plain
  case ending =>
    intro atEnd
    have before := column_lt_columnAfter laid t member
    rcases atEnd with missing | ⟨-, column⟩
    · exact absurd missing fault
    · omega
  case placed => exact .inl ⟨t, member, place⟩

theorem earliest_of_ending {head body : List Placed} {s : State}
    (laid : Laid offset cs (head ++ body)) (heading : Heading (tokensOf head) (tokensOf body))
    (reads : Reads .expression maxDepth .start (tokensOf body) s) (unfinished : s.complete? = none)
    (place : error.column = columnAfter (head ++ body))
    (fault : error.fault = .unexpectedEnd ∨ error.fault = .missingCloseParen) :
    error.Earliest (head ++ body) := by
  have apart {k : Nat} {t : Placed} (here : (head ++ body)[k]? = some t) :
      error.column ≠ t.column := by
    have := column_lt_columnAfter laid t (List.mem_of_getElem? here)
    omega
  constructor
  case later =>
    intro k t here same
    exact absurd same (apart here)
  case first =>
    intro t here same
    exact absurd same (apart here)
  case ending =>
    intro atEnd
    obtain ⟨rest, accepted, missing⟩ := reads_viable heading reads
    exact ⟨rest, missing unfinished, by simpa [tokensOf] using accepted⟩
  case placed =>
    right
    rcases fault with operand | group
    · exact .inl operand
    · exact .inr ⟨group, place⟩

/-- The error of a rejected line stands at the earliest token at which the line could be told from all
    accepted ones. -/
theorem ofTokens_error_earliest {line : String} {error : LineError}
    (rejected : Expr.ofTokens (lex line) = .error error) : error.Earliest (lex line) := by
  have laid := lex_laid line
  rcases ofTokens_error rejected with ⟨target, place, rest, tokens, mark, same⟩ |
    ⟨head, body, tokens, heading, breaks⟩
  · rw [tokens] at laid ⊢
    rw [same]
    exact earliest_of_target laid rfl mark
  · rw [tokens] at laid breaks ⊢
    cases breaks with
    | token split reads stuck place fault =>
      subst split
      rw [← List.append_assoc] at laid ⊢
      exact earliest_of_token laid heading reads stuck place fault
    | ending reads unfinished place fault =>
      exact earliest_of_ending laid heading reads unfinished place fault

/-- The line could go on after its second token with an operator or the missing parenthesis. -/
theorem ofTokens_error_earliest_equals :
    Expr.ofTokens (lex "(a = b") = .error ⟨.missingCloseParen, 4⟩ ∧
    LineError.Earliest ⟨.missingCloseParen, 4⟩ (lex "(a = b") := by
  have rejected : Expr.ofTokens (lex "(a = b") = .error ⟨.missingCloseParen, 4⟩ := by
    unfold lex
    rw [scan_eq_spell, ofTokens_eq]
    rfl
  exact ⟨rejected, ofTokens_error_earliest rejected⟩

end Calculator
