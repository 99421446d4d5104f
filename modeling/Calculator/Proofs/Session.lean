import Calculator.Session
import Calculator.Proofs.Effects

/- What becomes of a line, by how its tokens are read: the value it gives, the store it leaves and what
   is noted on the way. -/
namespace Calculator

def Session.enterAll (s : Session) (lines : List String) : Session :=
  lines.foldl (fun s line => (s.enter line).session) s

def reading? (line : String) : Option (Except LineError Expr) :=
  if isBlankLine line then none else some (Expr.ofTokens (lex line))

variable {line : String} {e : Expr} {error : LineError}

theorem runLine_rejected (rejected : Expr.ofTokens (lex line) = .error error) (s : Store) :
    s.runLine line = ⟨.error error, s, [.tokens (lex line)]⟩ := by
  unfold Store.runLine
  simp only [rejected]

theorem runLine_accepted (accepted : Expr.ofTokens (lex line) = .ok e) (s : Store) :
    s.runLine line = ⟨.ok (e.meaning s).1, (e.meaning s).2,
      .tokens (lex line) :: .parsed e.visits e.assigns ::
        (e.writes s).map fun (name, value) => .bound name value⟩ := by
  unfold Store.runLine
  simp only [accepted, evaluation_eq]

theorem enter_blank (blank : isBlankLine line = true) (s : Session) :
    s.enter line = ⟨.blank, s, []⟩ := by
  unfold Session.enter
  rw [if_pos blank]

theorem enter_rejected (visible : isBlankLine line = false)
    (rejected : Expr.ofTokens (lex line) = .error error) (s : Session) :
    s.enter line = ⟨.rejected error, s, [.tokens (lex line), .rejected line error]⟩ := by
  unfold Session.enter
  simp only [visible, runLine_rejected rejected]
  rfl

theorem enter_accepted (visible : isBlankLine line = false)
    (accepted : Expr.ofTokens (lex line) = .ok e) (s : Session) :
    s.enter line = ⟨.accepted (e.meaning s.store).1,
      ⟨(e.meaning s.store).2.set lastName (e.meaning s.store).1⟩,
      (s.store.runLine line).journal ++ [.bound lastName (e.meaning s.store).1]⟩ := by
  unfold Session.enter
  simp only [visible, runLine_accepted accepted]
  rfl

theorem enter_eq (s : Session) (line : String) :
    s.enter line =
      match reading? line with
      | none => ⟨.blank, s, []⟩
      | some (.error error) => ⟨.rejected error, s, [.tokens (lex line), .rejected line error]⟩
      | some (.ok e) =>
        ⟨.accepted (e.meaning s.store).1,
          ⟨(e.meaning s.store).2.set lastName (e.meaning s.store).1⟩,
          (s.store.runLine line).journal ++ [.bound lastName (e.meaning s.store).1]⟩ := by
  unfold reading?
  cases blank : isBlankLine line with
  | true => exact enter_blank blank s
  | false =>
    cases read : Expr.ofTokens (lex line) with
    | error error => exact enter_rejected blank read s
    | ok e => exact enter_accepted blank read s

theorem enter_alike {a b : String} (same : reading? a = reading? b) (s : Session) :
    (s.enter a).reply = (s.enter b).reply ∧ (s.enter a).session = (s.enter b).session := by
  rw [enter_eq, enter_eq, same]
  rcases reading? b with _ | error | e <;> exact ⟨rfl, rfl⟩

theorem enterAll_cons (s : Session) (line : String) (rest : List String) :
    s.enterAll (line :: rest) = (s.enter line).session.enterAll rest := rfl

end Calculator
