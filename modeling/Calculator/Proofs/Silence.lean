import Calculator.Proofs.Session

/- Lines that are blank or rejected leave the session as it was, so a run goes on without them as it
   does with them. Which lines these are depends on their text alone. -/
namespace Calculator

/-- What a reply says of the line, apart from the value that it has in the session. -/
inductive Verdict where
  | blank
  | accepted
  | rejected (error : LineError)
  deriving DecidableEq, Repr

def Reply.verdict : Reply → Verdict
  | .blank => .blank
  | .accepted _ => .accepted
  | .rejected error => .rejected error

def kept {α : Type} (marked : List (Bool × α)) : List α := (marked.filter Prod.fst).map Prod.snd

def Session.markedTurns (s : Session) (lines : List (Bool × String)) : List (Bool × Turn) :=
  (lines.map Prod.fst).zip (s.turns (lines.map Prod.snd))

theorem verdict_eq (s t : Session) (line : String) :
    (s.enter line).reply.verdict = (t.enter line).reply.verdict := by
  rw [enter_eq, enter_eq]
  rcases reading? line with _ | error | e <;> rfl

theorem session_of_silent {s : Session} {line : String}
    (silent : (s.enter line).reply.verdict ≠ .accepted) : (s.enter line).session = s := by
  revert silent
  rw [enter_eq]
  rcases reading? line with _ | error | e <;> intro silent
  · rfl
  · rfl
  · exact absurd rfl silent

theorem markedTurns_cons (s : Session) (mark : Bool) (line : String) (rest : List (Bool × String)) :
    s.markedTurns ((mark, line) :: rest) =
      (mark, s.enter line) :: (s.enter line).session.markedTurns rest := rfl

theorem kept_cons {α : Type} (mark : Bool) (x : α) (rest : List (Bool × α)) :
    kept ((mark, x) :: rest) = if mark then x :: kept rest else kept rest := by
  cases mark <;> rfl

theorem turns_kept {s : Session} {lines : List (Bool × String)}
    (silent : ∀ turn ∈ s.markedTurns lines, turn.1 = false → turn.2.reply.verdict ≠ .accepted) :
    s.turns (kept lines) = kept (s.markedTurns lines) ∧
    s.enterAll (kept lines) = s.enterAll (lines.map Prod.snd) := by
  induction lines generalizing s with
  | nil => exact ⟨rfl, rfl⟩
  | cons first rest ih =>
    obtain ⟨mark, line⟩ := first
    rw [markedTurns_cons] at silent ⊢
    obtain ⟨turns, ending⟩ := ih fun turn member => silent turn (List.mem_cons_of_mem _ member)
    rw [kept_cons, kept_cons, List.map_cons, enterAll_cons, ← ending, ← turns]
    cases mark with
    | true => exact ⟨rfl, rfl⟩
    | false =>
      have same : (s.enter line).session = s :=
        session_of_silent (silent (false, s.enter line) (List.mem_cons_self ..) rfl)
      simp [same]

/-- Deleting any blank or rejected lines from a run changes neither the turns of the other lines nor the
    session at the end. The verdict on a line is the same in all sessions. -/
theorem silent_lines_invisible :
    (∀ (s : Session) (lines : List (Bool × String)),
      (∀ turn ∈ s.markedTurns lines, turn.1 = false → turn.2.reply.verdict ≠ .accepted) →
      s.turns (kept lines) = kept (s.markedTurns lines) ∧
      s.enterAll (kept lines) = s.enterAll (lines.map Prod.snd)) ∧
    ∀ (s t : Session) (line : String),
      (s.enter line).reply.verdict = (t.enter line).reply.verdict := by
  constructor
  · intro s lines silent
    exact turns_kept silent
  · exact verdict_eq

theorem silent_lines_invisible_assignment :
    let lines := [(true, "x = 5"), (false, "x = 1 + 2 ("), (false, " "), (true, "x")]
    Session.fresh.turns ["x = 5", "x"] = kept (Session.fresh.markedTurns lines) ∧
    Session.fresh.enterAll ["x = 5", "x"] =
      Session.fresh.enterAll ["x = 5", "x = 1 + 2 (", " ", "x"] := by
  intro lines
  apply silent_lines_invisible.1 Session.fresh lines
  have failed (s : Session) :
      (s.enter "x = 1 + 2 (").reply.verdict = .rejected ⟨.unexpectedOpenParen, 11⟩ := by
    have read : Expr.ofTokens (lex "x = 1 + 2 (") = .error ⟨.unexpectedOpenParen, 11⟩ := by
      rw [lex, scan_start, ofTokens_eq]
      rfl
    simp [enter_rejected (by decide) read, Reply.verdict]
  have empty (s : Session) : (s.enter " ").reply.verdict = .blank := by
    have blank : isBlankLine " " = true := by decide
    simp [enter_blank blank, Reply.verdict]
  intro turn member deleted
  simp only [lines, markedTurns_cons, List.mem_cons] at member
  rcases member with rfl | rfl | rfl | rfl | none
  · cases deleted
  · simp [failed]
  · simp [empty]
  · cases deleted
  · cases none

end Calculator
