import Calculator.Proofs.Layout
import Calculator.Proofs.Ledger
import Calculator.Proofs.Number.Numeral

/- The journal of a session, as the messages that it shows. Those that tell of bindings rebuild the
   variables: no word of a line has a blank in it, so the first equals sign between blanks ends the name,
   and every number is read back from its text. Which characters a quoted text shows makes no difference. -/
namespace Calculator

variable (shown : Char → Bool)

def Turn.messages (turn : Turn) : List String := turn.journal.map (Event.text shown)

def Session.messages (s : Session) (lines : List String) : List String :=
  (s.turns lines).flatMap (Turn.messages shown)

/-- The name and the number that a message of a binding tells, parted at the first ` = `. -/
def readBinding? (message : String) : Option (String × Float) := do
  let told ← message.toList.dropPrefix? "binding ".toList
  let (name, number) ← told.dropInfix? " = ".toList
  let value ← readNumber? number
  return (String.ofList name, value)

inductive Noted (line : String) : Reply → List String → Prop where
  | blank (white : isBlankLine line = true) : Noted line .blank []
  | rejected {error : LineError} (read : Expr.ofTokens (lex line) = .error error) :
      Noted line (.rejected error)
        ([.tokens (lex line), .rejected line error].map (Event.text shown))
  | expression {e : Expr} (value : Float) (read : Expr.ofTokens (lex line) = .ok e)
      (plain : e.assigns = false) :
      Noted line (.accepted value)
        ([.tokens (lex line), .parsed e.visits false, .bound lastName value].map (Event.text shown))
  | assignment {target : String} {e : Expr} (value : Float)
      (read : Expr.ofTokens (lex line) = .ok (.assignment target e)) :
      Noted line (.accepted value)
        ([.tokens (lex line), .parsed (Expr.assignment target e).visits true, .bound target value,
          .bound lastName value].map (Event.text shown))

variable {shown} {line name : String} {reply : Reply} {messages : List String}

theorem dropInfix_first {x : Char} {before : List Char} (absent : x ∉ before) (mark after : List Char) :
    (before ++ (x :: mark ++ after)).dropInfix? (x :: mark) = some (before, after) := by
  rw [List.dropInfix?_eq_some_iff]
  refine ⟨⟨x :: mark, by simp, by simp⟩, fun earlier found rest same equal => ?_⟩
  -- an earlier match would begin inside what comes before, with the absent character
  by_contra shorter
  have inside : earlier.length < before.length := Nat.lt_of_not_ge shorter
  obtain rfl := eq_of_beq equal
  have there : before[earlier.length]? = some x := by
    rw [← List.getElem?_append_left inside, same]
    simp
  exact absent (List.mem_of_getElem? there)

theorem readBinding_bound (solid : ' ' ∉ name.toList) (value : Float) :
    readBinding? ((Event.bound name value).text shown) = some (name, value) := by
  have chars : ((Event.bound name value).text shown).toList =
      "binding ".toList ++ (name.toList ++ (" = ".toList ++ writeNumber value)) := by
    unfold Event.text
    simp only [String.toList_append, String.toList_ofList, List.append_assoc]
  have parted : (name.toList ++ (" = ".toList ++ writeNumber value)).dropInfix? " = ".toList =
      some (name.toList, writeNumber value) := dropInfix_first solid ['=', ' '] (writeNumber value)
  unfold readBinding?
  rw [chars, List.dropPrefix?_append_of_beq _ BEq.rfl, Option.bind_eq_bind, Option.bind_some, parted]
  simp [readNumber_writeNumber]

/-- A name may hold a minus sign, and a number may be infinite. -/
example : readBinding? "binding 1e-5 = -inf" = some ("1e-5", -(1 / 0)) := by rfl

theorem readBinding_other {event : Event} (other : ∀ name value, event ≠ .bound name value) :
    readBinding? (event.text shown) = none := by
  unfold readBinding? Event.text
  cases event with
  | bound name value => exact absurd rfl (other name value)
  | _ => simp [List.dropPrefix?]

theorem no_blank_of_word (member : .word name ∈ tokensOf (lex line)) : ' ' ∉ name.toList := by
  obtain ⟨t, placed, same⟩ := List.mem_map.mp member
  have solid := (laid_solid (lex_laid line) t placed).2
  rw [same] at solid
  intro blank
  have := solid ' ' blank
  revert this
  decide

theorem enter_noted (s : Session) (line : String) :
    Noted shown line (s.enter line).reply ((s.enter line).messages shown) := by
  cases blank : isBlankLine line with
  | true =>
    rw [enter_blank blank]
    exact .blank blank
  | false =>
    cases read : Expr.ofTokens (lex line) with
    | error error =>
      rw [enter_rejected blank read]
      exact .rejected read
    | ok e =>
      rw [enter_accepted blank read, runLine_accepted read, ofTokens_writes read]
      rcases ofTokens_forms read with ⟨none, bare⟩ | ⟨target, rest, value, tokens, rfl, -⟩
      · have plain := assigns_of_operands bare
        rw [none, plain]
        exact .expression _ read plain
      · rw [tokens]
        exact .assignment _ read

theorem noted_bindings (noted : Noted shown line reply messages) :
    messages.filterMap readBinding? = Entry.writes ⟨.enter line, reply.value?⟩ := by
  have last (value : Float) :
      readBinding? ((Event.bound lastName value).text shown) = some (lastName, value) :=
    readBinding_bound (by decide) value
  cases noted with
  | blank white => rfl
  | rejected read =>
    simp [readBinding_other]
    rfl
  | expression value read plain =>
    rcases ofTokens_forms read with ⟨none, -⟩ | ⟨target, rest, inner, -, rfl, -⟩
    · simp [readBinding_other, last, Reply.value?, Entry.writes, assigned, none]
    · cases plain
  | assignment value read =>
    rcases ofTokens_forms read with ⟨-, bare⟩ | ⟨name, rest, inner, tokens, same, -⟩
    · cases bare
    · have named : .word name ∈ tokensOf (lex line) := by simp [tokens]
      have solid := no_blank_of_word named
      obtain ⟨rfl, -⟩ := Expr.assignment.inj same
      simp [readBinding_other, readBinding_bound solid, last, Reply.value?, Entry.writes, assigned,
        tokens, target?]

theorem messages_cons (s : Session) (line : String) (rest : List String) :
    s.messages shown (line :: rest) =
      (s.enter line).messages shown ++ (s.enter line).session.messages shown rest := rfl

theorem messages_store (s : Session) (lines : List String) :
    s.store.setAll ((s.messages shown lines).filterMap readBinding?) = (s.enterAll lines).store := by
  induction lines generalizing s with
  | nil => rfl
  | cons line rest ih =>
    rw [messages_cons, List.filterMap_append, setAll_append, noted_bindings (enter_noted s line),
      ← enter_store, ih, enterAll_cons]

/-- After any lines the bindings that the messages tell, made one after the other, give the variables
    of the session. Each turn tells those that it makes and no others. -/
theorem messages_rebuild_store (shown : Char → Bool) (s : Session) :
    (∀ lines, s.store.setAll ((s.messages shown lines).filterMap readBinding?) =
      (s.enterAll lines).store) ∧
    ∀ line, Noted shown line (s.enter line).reply ((s.enter line).messages shown) ∧
      ((s.enter line).messages shown).filterMap readBinding? =
        Entry.writes ⟨.enter line, (s.enter line).reply.value?⟩ := by
  refine ⟨messages_store s, fun line => ?_⟩
  have noted : Noted shown line _ _ := enter_noted s line
  exact ⟨noted, noted_bindings noted⟩

end Calculator
