import Calculator.Diagnosis
import Calculator.Proofs.Line

/- The one-pass diagnosis finds the error that the reader reports. It follows the reader's states
   by their mode and their depth alone. -/
namespace Calculator

def State.mode : State → Mode
  | .before level _ => if level.negated then .primary else .operand
  | .after _ _ _ => .operator

def rejection : Except LineError Expr → Option LineError
  | .error error => some error
  | .ok _ => none

theorem rejection_some_iff {read : Except LineError Expr} {error : LineError} :
    rejection read = some error ↔ read = .error error := by
  cases read <;> simp [rejection]

variable {column : Nat}

theorem diagnose_step {s : State} {t : Placed} {rest : List Placed} (within : s.depth ≤ maxDepth) :
    diagnose column s.mode s.depth (t :: rest) =
      match s.feed .expression 0 t with
      | .take next => diagnose column next.mode next.depth rest
      | .stop _ => some ⟨.trailingTokens t.token.lexeme, t.column⟩
      | .refuse _ error => some error := by
  obtain ⟨token, offset⟩ := t
  cases s with
  | before level outer =>
    have full : outer.length = 512 ↔ 512 ≤ 0 + outer.length := by
      simp only [State.depth, maxDepth] at within
      omega
    obtain ⟨sum, product, negated⟩ := level
    cases token with
    | openParen =>
      cases negated <;> simp [State.feed, State.mode, State.depth, diagnose, maxDepth, full, Level.empty] <;>
        split <;> rfl
    | word text =>
      cases negated <;> simp [State.feed, State.mode, State.depth, diagnose] <;>
        cases Expr.ofWord text <;> rfl
    | _ => cases negated <;> simp [State.feed, State.mode, State.depth, diagnose, Placed.column]
  | after sum term outer =>
    cases outer <;> cases token <;>
      simp [State.feed, State.mode, State.depth, Level.accept, diagnose, Token.operator?,
        BinaryOp.isProduct, Placed.column]

theorem diagnose_end (s : State) :
    diagnose column s.mode s.depth [] = rejection (s.finish column) := by
  cases s with
  | before level outer =>
    obtain ⟨sum, product, negated⟩ := level
    cases negated <;> rfl
  | after sum term outer => cases outer <;> rfl

theorem diagnose_read {s : State} {ts : List Placed} (within : s.depth ≤ maxDepth) :
    diagnose column s.mode s.depth ts = rejection (s.read .expression 0 column ts).atEnd := by
  induction ts generalizing s with
  | nil =>
    rw [diagnose_end, State.read, Reading.atEnd]
    cases s.finish column <;> rfl
  | cons t ts ih =>
    rw [diagnose_step within, State.read]
    cases fed : s.feed .expression 0 t with
    | take next => exact ih (takes_within (feed_take_iff.mp fed) within)
    | stop e => rfl
    | refuse counted error => rfl

theorem diagnose_start (ts : List Placed) :
    diagnose column .operand 0 ts = rejection (State.start.read .expression 0 column ts).atEnd :=
  diagnose_read (s := .start) (Nat.zero_le maxDepth)

theorem diagnoseLine_eq (ts : List Placed) : diagnoseLine ts = rejection (Expr.ofTokens ts) := by
  have ending : endColumn ts = columnAfter ts := rfl
  by_cases second : (tokensOf ts)[1]? = some .equals
  · obtain ⟨⟨target, a⟩, b, rest, rfl⟩ := second_equals second
    cases target with
    | word text =>
      rw [ofTokens_assignment]
      simp only [diagnoseLine, ending, diagnose_start]
      cases (State.start.read .expression 0 _ rest).atEnd <;> rfl
    | _ =>
      rw [ofTokens_eq]
      rfl
  · rw [ofTokens_plain second, ← diagnose_start, ← ending]
    unfold diagnoseLine
    split
    · simp [tokensOf] at second
    · rfl

/-- The diagnosis tells exactly the error with which a line is rejected, and tells none exactly
    where the line is accepted. Where sums of offsets wrap around, so does the column that it tells.
    Where they stop the program, they do so only for a token that ends beyond the words. -/
theorem ofTokens_error_iff_diagnoseLine (ts : List Placed) :
    ((∀ error, Expr.ofTokens ts = .error error ↔ diagnoseLine ts = some error) ∧
      ((∃ e, Expr.ofTokens ts = .ok e) ↔ diagnoseLine ts = none)) ∧
    ((∀ error, Expr.parse .wrapping ts = .error error ↔
        ∃ found, diagnoseLine ts = some found ∧ error = ⟨found.fault, found.column % wordSize⟩) ∧
      ((∃ e, Expr.parse .wrapping ts = .ok e) ↔ diagnoseLine ts = none)) ∧
    ((∀ error, Expr.parse .checked ts = .error (.rejected error) ↔ diagnoseLine ts = some error) ∧
      ((∃ e, Expr.parse .checked ts = .ok e) ↔ diagnoseLine ts = none) ∨
      Expr.parse .checked ts = .error .overflow ∧ ∃ t ∈ ts, wordSize ≤ t.stop + 1) := by
  rw [diagnoseLine_eq, parse_wrapping]
  refine ⟨?_, ?_, (parse_checked ts).imp_left fun same => ?_⟩
  · cases Expr.ofTokens ts <;> simp [rejection]
  · cases Expr.ofTokens ts <;> simp [rejection, LineError.wrapped, eq_comm]
  · rw [same]
    cases Expr.ofTokens ts <;> simp [rejection]

end Calculator
