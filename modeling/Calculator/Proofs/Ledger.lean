import Calculator.Proofs.Session
import Mathlib.Data.List.DropRight

/- Sessions by their histories. The operations performed and the values of the accepted lines tell
   what was written to which name; a reset makes all that was written before it void. -/
namespace Calculator

/-- A line is entered, or evaluated on the variables of the session without counting as its last line. -/
inductive Operation where
  | enter (line : String)
  | evaluate (line : String)
  | set (name : String) (value : Float)
  | reset

def Reply.value? : Reply → Option Float
  | .accepted value => some value
  | _ => none

def Session.perform (s : Session) : Operation → Option Float × Session
  | .enter line => ((s.enter line).reply.value?, (s.enter line).session)
  | .evaluate line => ((s.store.runLine line).result.toOption, ⟨(s.store.runLine line).store⟩)
  | .set name value => (none, ⟨s.store.set name value⟩)
  | .reset => (none, .fresh)

def Session.after (s : Session) (ops : List Operation) : Session :=
  ops.foldl (fun s op => (s.perform op).2) s

structure Entry where
  operation : Operation
  value? : Option Float

def Session.history (s : Session) : List Operation → List Entry
  | [] => []
  | op :: rest => ⟨op, (s.perform op).1⟩ :: (s.perform op).2.history rest

def target? : List Token → Option String
  | .word name :: .equals :: _ => some name
  | _ => none

def assigned (line : String) (value : Float) : List (String × Float) :=
  (target? (tokensOf (lex line))).toList.map fun name => (name, value)

/-- What an operation writes, in order. A line that is blank or rejected has no value. -/
def Entry.writes : Entry → List (String × Float)
  | ⟨.enter line, some value⟩ => assigned line value ++ [(lastName, value)]
  | ⟨.evaluate line, some value⟩ => assigned line value
  | ⟨.set name value, _⟩ => [(name, value)]
  | _ => []

def Entry.isReset : Entry → Bool
  | ⟨.reset, _⟩ => true
  | _ => false

def ledger (history : List Entry) : List (String × Float) :=
  (history.rtakeWhile fun entry => !entry.isReset).flatMap Entry.writes

/-- The store from which the writes of the ledger start. -/
def Store.base (s : Store) (history : List Entry) : Store :=
  if history.any Entry.isReset then .fresh else s

theorem ofTokens_forms {ts : List Placed} {e : Expr} (accepted : Expr.ofTokens ts = .ok e) :
    target? (tokensOf ts) = none ∧ e.Operands (fun _ => True) ∨
    ∃ name rest value, tokensOf ts = .word name :: .equals :: rest ∧ e = .assignment name value ∧
      value.Operands fun _ => True := by
  rcases ofTokens_ok_iff.mp accepted with ⟨name, rest, value, tokens, same, whole⟩ | ⟨plain, whole⟩
  · exact .inr ⟨name, rest, value, tokens, same, phrase_bare (whole_iff_phrase.mp whole).1⟩
  · refine .inl ⟨?_, phrase_bare (whole_iff_phrase.mp whole).1⟩
    unfold target?
    split
    · rename_i tokens
      simp [tokens] at plain
    · rfl

theorem ofTokens_writes {ts : List Placed} {e : Expr} (accepted : Expr.ofTokens ts = .ok e)
    (s : Store) :
    e.writes s = (target? (tokensOf ts)).toList.map fun name => (name, (e.meaning s).1) := by
  rcases ofTokens_forms accepted with ⟨none, bare⟩ | ⟨name, rest, value, tokens, rfl, bare⟩
  · rw [none, operands_writes bare]
    rfl
  · rw [tokens]
    simp [Expr.writes, Expr.meaning, target?, operands_writes bare]

theorem accepted_store {line : String} {e : Expr} (accepted : Expr.ofTokens (lex line) = .ok e)
    (s : Store) : (e.meaning s).2 = s.setAll (assigned line (e.meaning s).1) := by
  rw [meaning_store, ofTokens_writes accepted]
  rfl

theorem evaluate_store (s : Store) (line : String) :
    (s.runLine line).store =
      s.setAll (Entry.writes ⟨.evaluate line, (s.runLine line).result.toOption⟩) := by
  cases read : Expr.ofTokens (lex line) with
  | error error =>
    rw [runLine_rejected read]
    rfl
  | ok e =>
    rw [runLine_accepted read]
    exact accepted_store read s

theorem enter_store (s : Session) (line : String) :
    (s.enter line).session.store =
      s.store.setAll (Entry.writes ⟨.enter line, (s.enter line).reply.value?⟩) := by
  cases blank : isBlankLine line with
  | true =>
    rw [enter_blank blank]
    rfl
  | false =>
    cases read : Expr.ofTokens (lex line) with
    | error error =>
      rw [enter_rejected blank read]
      rfl
    | ok e =>
      rw [enter_accepted blank read]
      change (e.meaning s.store).2.set lastName (e.meaning s.store).1 =
        s.store.setAll (assigned line (e.meaning s.store).1 ++ [(lastName, (e.meaning s.store).1)])
      rw [setAll_append, ← accepted_store read]
      rfl

theorem perform_store (s : Session) (op : Operation)
    (kept : Entry.isReset ⟨op, (s.perform op).1⟩ = false) :
    (s.perform op).2.store = s.store.setAll (Entry.writes ⟨op, (s.perform op).1⟩) := by
  cases op with
  | enter line => exact enter_store s line
  | evaluate line => exact evaluate_store s.store line
  | set name value => rfl
  | reset => cases kept

theorem perform_reset (s : Session) (op : Operation)
    (reset : Entry.isReset ⟨op, (s.perform op).1⟩ = true) : (s.perform op).2.store = .fresh := by
  cases op with
  | reset => rfl
  | _ => cases reset

theorem after_snoc (s : Session) (ops : List Operation) (op : Operation) :
    s.after (ops ++ [op]) = ((s.after ops).perform op).2 :=
  List.foldl_append ..

theorem history_snoc (s : Session) (ops : List Operation) (op : Operation) :
    s.history (ops ++ [op]) = s.history ops ++ [⟨op, ((s.after ops).perform op).1⟩] := by
  induction ops generalizing s with
  | nil => rfl
  | cons first rest ih => exact congrArg _ (ih (s.perform first).2)

theorem ledger_snoc (history : List Entry) (entry : Entry) :
    ledger (history ++ [entry]) =
      if entry.isReset then [] else ledger history ++ entry.writes := by
  unfold ledger
  rw [List.rtakeWhile_concat]
  cases entry.isReset <;> simp

theorem base_snoc (s : Store) (history : List Entry) (entry : Entry) :
    s.base (history ++ [entry]) = if entry.isReset then .fresh else s.base history := by
  unfold Store.base
  rw [List.any_append]
  cases history.any Entry.isReset <;> simp

theorem after_store (s : Session) (ops : List Operation) :
    (s.after ops).store = (s.store.base (s.history ops)).setAll (ledger (s.history ops)) := by
  induction ops using List.reverseRecOn with
  | nil => rfl
  | append_singleton ops op ih =>
    rw [after_snoc, history_snoc, ledger_snoc, base_snoc]
    split
    · rename_i reset
      rw [perform_reset _ op reset]
      rfl
    · rename_i kept
      rw [perform_store _ op (by simpa using kept), ih, setAll_append]

/-- After any operations on a session whose variables were given, each name has the value of the
    latest write to it since the latest reset, else the value given to it if no reset has made that
    void, else zero. Bound are the last value's name, the names given and the names written. -/
theorem session_store_eq_ledger (given : List (String × Float)) (ops : List Operation) :
    let start : Session := ⟨Store.fresh.setAll given⟩
    let history := start.history ops
    let kept := if history.any Entry.isReset then [] else given
    let store := (start.after ops).store
    (∀ name, store.get name = ((latest? name (ledger history)).or (latest? name kept)).getD 0) ∧
    (∀ name, store.contains name = true ↔
      name = lastName ∨ name ∈ kept.map Prod.fst ∨ name ∈ (ledger history).map Prod.fst) ∧
    store.contains lastName = true ∧ store.isEmpty = false := by
  intro start history kept store
  have base : start.store.base history = Store.fresh.setAll kept := by
    unfold Store.base kept
    split <;> rfl
  have made : store = (Store.fresh.setAll kept).setAll (ledger history) := by
    rw [← base]
    exact after_store start ops
  have names (name : String) : store.contains name = true ↔
      name = lastName ∨ name ∈ kept.map Prod.fst ∨ name ∈ (ledger history).map Prod.fst := by
    rw [made, contains_setAll, contains_setAll, contains_fresh, or_assoc]
  have last := (names lastName).mpr (.inl rfl)
  refine ⟨?_, names, last, not_isEmpty_of_contains last⟩
  intro name
  rw [made, get_setAll, get_setAll, get_fresh]
  cases latest? name (ledger history) <;> rfl

end Calculator
