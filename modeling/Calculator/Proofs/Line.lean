import Calculator.Proofs.Descent

/- Lines as the machine reads them, and which of them are accepted. The way in which columns are added up
   shows in the columns of errors alone, unless a sum stops the program. -/
namespace Calculator

def readLine (ts : List Placed) : Except LineError Expr :=
  match ts with
  | target :: ⟨.equals, _⟩ :: rest =>
    match target.token with
    | .word text =>
      (State.start.read .expression 0 (columnAfter ts) rest).atEnd.map (.assignment text)
    | token => .error ⟨.invalidTarget token.lexeme, target.column⟩
  | _ => (State.start.read .expression 0 (columnAfter ts) ts).atEnd

def LineError.wrapped (error : LineError) : LineError :=
  { error with column := error.column % wordSize }

variable {ε : Type} {A : Arithmetic ε} {turn : LineError → ε} {halts : ε → Prop}

theorem agrees_map {α β : Type} {result : Except ε α} {expected : Except LineError α} (f : α → β)
    (agrees : Agrees turn halts result expected) :
    Agrees turn halts (result.map f) (expected.map f) := by
  rcases agrees with rfl | ⟨stop, rfl, halted⟩
  · cases expected <;> exact .inl rfl
  · exact .inr ⟨stop, rfl, halted⟩

theorem mapError_eq_ok_iff {α : Type} {f : LineError → ε} {result : Except LineError α} {a : α} :
    result.mapError f = .ok a ↔ result = .ok a := by
  cases result <;> simp

theorem second_equals {ts : List Placed} (second : (tokensOf ts)[1]? = some .equals) :
    ∃ target offset rest, ts = target :: ⟨.equals, offset⟩ :: rest := by
  match ts, second with
  | target :: ⟨eq, offset⟩ :: rest, second =>
    obtain rfl : eq = .equals := by simpa [tokensOf] using second
    exact ⟨target, offset, rest, rfl⟩

theorem readLine_plain {ts : List Placed} (plain : (tokensOf ts)[1]? ≠ some .equals) :
    readLine ts = (State.start.read .expression 0 (columnAfter ts) ts).atEnd := by
  unfold readLine
  split
  · simp [tokensOf] at plain
  · rfl

theorem parse_agrees {ts : List Placed} (follows : A.Follows turn halts ts.toArray) :
    Agrees turn halts (Expr.parse A ts) (readLine ts) := by
  by_cases second : (tokensOf ts)[1]? = some .equals
  · obtain ⟨⟨target, a⟩, b, rest, rfl⟩ := second_equals second
    cases target with
    | word text =>
      exact agrees_map _ (readToEnd_agrees (c := ⟨_, 2, 0⟩) follows)
    | _ => exact fail_agrees (follows.column _ (by simp))
  · rw [readLine_plain second]
    have plain : Expr.parse A ts = (Cursor.start ts).readToEnd A := by
      simp only [Expr.parse]
      split
      · rename_i offset found
        have there : ts[1]? = some ⟨.equals, offset⟩ := by
          simpa [Cursor.second?, Cursor.start] using found
        exact absurd (by simp [tokensOf, there]) second
      · rfl
    rw [plain]
    exact readToEnd_agrees follows

theorem columnAfter_eq (tokens : Array Placed) :
    columnAfter tokens.toList = (tokens.back?.map (·.stop + 1)).getD 1 := by
  unfold columnAfter
  rw [Array.getLast?_toList]
  cases tokens.back? <;> rfl

theorem exact_follows (tokens : Array Placed) :
    Arithmetic.exact.Follows id (fun _ => False) tokens where
  column := fun _ _ _ => rfl
  ending := by
    rw [columnAfter_eq]
    cases tokens.back? <;> exact fun _ => rfl

theorem wrapping_follows (tokens : Array Placed) :
    Arithmetic.wrapping.Follows LineError.wrapped (fun _ => False) tokens where
  column := fun _ _ _ => rfl
  ending := by
    rw [columnAfter_eq]
    cases tokens.back? with
    | none => exact fun _ => rfl
    | some t =>
      intro fault
      exact congrArg (LineError.mk fault) (Nat.mod_add_mod ..)

theorem checked_gives {halts : Halt → Prop} {a b : Nat}
    (fits : a + b < wordSize ∨ halts .overflow) :
    Arithmetic.checked.Gives .rejected halts (Arithmetic.checked.add a b) (a + b) := by
  unfold Arithmetic.checked
  dsimp only
  split
  · exact fun _ => rfl
  · rename_i large
    exact fits.resolve_left large

theorem checked_follows {halts : Halt → Prop} {tokens : Array Placed}
    (fits : (∀ t ∈ tokens, t.stop + 1 < wordSize) ∨ halts .overflow) :
    Arithmetic.checked.Follows .rejected halts tokens where
  column := by
    intro t member
    refine checked_gives (fits.imp_left fun all => ?_)
    have := all t member
    unfold Placed.stop at this
    omega
  ending := by
    rw [columnAfter_eq]
    cases last : tokens.back? with
    | none => exact fun _ => rfl
    | some t =>
      have sum := fits.imp_left fun all => all t (Array.mem_of_back? last)
      unfold Arithmetic.endColumn
      by_cases word : t.stop < wordSize
      · have stop : Arithmetic.checked.add t.offset t.token.lexeme.utf8ByteSize = .ok t.stop :=
          if_pos word
        simp only [stop, Except.bind]
        exact checked_gives sum
      · have stop : Arithmetic.checked.add t.offset t.token.lexeme.utf8ByteSize = .error .overflow :=
          if_neg word
        simp only [stop, Except.bind]
        exact sum.resolve_left fun below => word (Nat.lt_of_succ_lt below)

theorem ofTokens_eq (ts : List Placed) : Expr.ofTokens ts = readLine ts := by
  rcases parse_agrees (exact_follows ts.toArray) with same | ⟨stop, -, halted⟩
  · rw [Expr.ofTokens, same]
    cases readLine ts <;> rfl
  · cases halted

theorem ofTokens_plain {ts : List Placed} (plain : (tokensOf ts)[1]? ≠ some .equals) :
    Expr.ofTokens ts = (State.start.read .expression 0 (columnAfter ts) ts).atEnd :=
  (ofTokens_eq ts).trans (readLine_plain plain)

theorem ofTokens_assignment (text : String) (a b : Nat) (rest : List Placed) :
    Expr.ofTokens (⟨.word text, a⟩ :: ⟨.equals, b⟩ :: rest) =
      ((State.start.read .expression 0 (columnAfter (⟨.word text, a⟩ :: ⟨.equals, b⟩ :: rest))
        rest).atEnd).map (.assignment text) :=
  ofTokens_eq _

theorem parse_wrapping (ts : List Placed) :
    Expr.parse .wrapping ts = (Expr.ofTokens ts).mapError LineError.wrapped := by
  rw [ofTokens_eq]
  rcases parse_agrees (wrapping_follows ts.toArray) with same | ⟨stop, -, halted⟩
  · exact same
  · cases halted

theorem parse_checked (ts : List Placed) :
    Expr.parse .checked ts = (Expr.ofTokens ts).mapError .rejected ∨
      Expr.parse .checked ts = .error .overflow ∧ ∃ t ∈ ts, wordSize ≤ t.stop + 1 := by
  rw [ofTokens_eq]
  by_cases fits : ∀ t ∈ ts, t.stop + 1 < wordSize
  · have follows : Arithmetic.checked.Follows .rejected (fun _ => False) ts.toArray :=
      checked_follows (.inl (by simpa using fits))
    rcases parse_agrees follows with same | ⟨stop, -, halted⟩
    · exact .inl same
    · cases halted
  · have follows : Arithmetic.checked.Follows .rejected (· = .overflow) ts.toArray :=
      checked_follows (.inr rfl)
    rcases parse_agrees follows with same | ⟨stop, halt, rfl⟩
    · exact .inl same
    · exact .inr ⟨halt, by simpa using fits⟩

theorem ofTokens_ok_iff {ts : List Placed} {e : Expr} :
    Expr.ofTokens ts = .ok e ↔
      (∃ name rest value, tokensOf ts = .word name :: .equals :: rest ∧
        e = .assignment name value ∧ Whole maxDepth rest value) ∨
      (tokensOf ts)[1]? ≠ some .equals ∧ Whole maxDepth (tokensOf ts) e := by
  by_cases plain : (tokensOf ts)[1]? = some .equals
  · obtain ⟨⟨target, a⟩, b, rest, rfl⟩ := second_equals plain
    cases target with
    | word text =>
      rw [ofTokens_assignment]
      simp only [plain, ne_eq, not_true_eq_false, false_and, or_false]
      constructor
      · intro ok
        cases value : (State.start.read .expression 0
            (columnAfter (⟨.word text, a⟩ :: ⟨.equals, b⟩ :: rest)) rest).atEnd with
        | error error => rw [value] at ok; cases ok
        | ok v =>
          rw [value] at ok
          exact ⟨text, tokensOf rest, v, rfl, (Except.ok.inj ok).symm, whole_iff.mp value⟩
      · intro form
        obtain ⟨name, others, value, same, rfl, whole⟩ := form
        simp only [tokensOf, List.map_cons, List.cons.injEq, Token.word.injEq, true_and] at same
        obtain ⟨rfl, rfl⟩ := same
        have read (column : Nat) : (State.start.read .expression 0 column rest).atEnd = .ok value :=
          whole_iff.mpr whole
        rw [read]
        rfl
    | _ => simp [ofTokens_eq, readLine, tokensOf]
  · rw [ofTokens_plain plain, whole_iff]
    simp only [plain, ne_eq, not_false_eq_true, true_and]
    constructor
    · exact .inr
    · intro form
      rcases form with ⟨name, rest, value, same, -⟩ | whole
      · simp [same] at plain
      · exact whole

theorem ofTokens_of_whole {ts : List Placed} {e : Expr} (whole : Whole maxDepth (tokensOf ts) e) :
    Expr.ofTokens ts = .ok e := by
  obtain ⟨last, reads, complete⟩ := whole
  apply ofTokens_ok_iff.mpr
  refine .inr ⟨?_, last, reads, complete⟩
  intro second
  exact equals_not_mem_of_reads reads (List.mem_of_getElem? second)

end Calculator
