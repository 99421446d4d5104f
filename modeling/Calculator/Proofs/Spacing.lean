import Calculator.Proofs.Layout
import Mathlib.Data.List.Chain

/- Writing tokens one after another with blanks between them. The line splits into these tokens again
   if and only if blanks stand wherever the second of two tokens would go on with the first. -/
namespace Calculator

def Token.Formed : Token → Prop
  | .word text => IsWordText text.toList
  | .blank => False
  | _ => True

structure Written where
  gap : List Char
  token : Token
  blanks : ∀ c ∈ gap, isBlank c = true
  formed : token.Formed

def writeAll (last : List Char) : List Written → List Char
  | [] => last
  | w :: rest => w.gap ++ (w.token.lexeme.toList ++ writeAll last rest)

def placeAll (offset : Nat) : List Written → List Placed
  | [] => []
  | w :: rest =>
    let t : Placed := ⟨w.token, offset + utf8Length w.gap⟩
    t :: placeAll t.stop rest

/-- With nothing between them the second token goes on with the first, a word. -/
inductive Joins : Token → Token → Prop where
  | word (text next : String) : Joins (.word text) (.word next)
  | minus {text : String} (digits : List Char) (split : text.toList = digits ++ ['e'])
      (all : ∀ c ∈ digits, c.isDigit = true) : Joins (.word text) .minus

def Written.Apart (a b : Written) : Prop := b.gap = [] → ¬ Joins a.token b.token

variable {c : Char} {w cs : List Char} {t : Token}

theorem joins_minus_iff {text : String} :
    Joins (.word text) .minus ↔ takesMinus text.toList = true := by
  constructor
  · intro joins
    cases joins with
    | minus digits split all => rw [split, takesMinus_digits all]
  · intro takes
    obtain ⟨digits, split, all⟩ := digits_of_takesMinus takes
    exact .minus digits split all

theorem symbol_not_joins {next : Token} (one : symbol? c = some t) : ¬ Joins t next := by
  intro joins
  cases joins <;> exact symbol_not_word one

theorem joins_symbol_iff {text : String} (one : symbol? c = some t) :
    Joins (.word text) t ↔ c = '-' ∧ takesMinus text.toList = true := by
  rw [← symbol_eq_minus_iff one]
  constructor
  · intro joins
    cases joins with
    | word => cases symbol_not_word one
    | minus digits split all => exact ⟨rfl, joins_minus_iff.mp (.minus digits split all)⟩
  · intro minus
    obtain ⟨same, takes⟩ := minus
    rw [same, joins_minus_iff]
    exact takes

theorem word_or_symbol (formed : t.Formed) :
    (∃ text, t = .word text ∧ IsWordText text.toList) ∨ ∃ c, symbol? c = some t := by
  cases t with
  | word text => exact .inl ⟨text, rfl, formed⟩
  | blank => cases formed
  | plus => exact .inr ⟨'+', rfl⟩
  | minus => exact .inr ⟨'-', rfl⟩
  | star => exact .inr ⟨'*', rfl⟩
  | slash => exact .inr ⟨'/', rfl⟩
  | equals => exact .inr ⟨'=', rfl⟩
  | openParen => exact .inr ⟨'(', rfl⟩
  | closeParen => exact .inr ⟨')', rfl⟩

theorem spell_joined (joined : ¬ Parted w (c :: cs)) (offset : Nat) :
    spell offset w (c :: cs) = spell (offset + c.utf8Size) (w ++ [c]) cs := by
  have inside : isWordChar c = true ∨ c = '-' ∧ takesMinus w = true := by
    by_contra neither
    apply joined
    intro d first
    obtain rfl : c = d := Option.some.inj first
    simpa using neither
  rcases inside with inside | ⟨same, takes⟩
  · obtain ⟨mark, one⟩ := isWordChar_iff.mp inside
    simp [spell_cons, mark, one]
  · subst same
    simp [spell_cons, takes, isBlank, symbol?]

theorem spell_grows (some : w ≠ []) (offset : Nat) (cs : List Char) :
    ∃ more ts, spell (offset + utf8Length w) w cs =
      ⟨.word (String.ofList (w ++ more)), offset⟩ :: ts := by
  induction cs generalizing w with
  | nil => exact ⟨[], [], by simp [spell, wordBefore_some some]⟩
  | cons c cs ih =>
    by_cases parted : Parted w (c :: cs)
    · have ended := spell_parted parted (offset + utf8Length w)
      rw [wordBefore_some some] at ended
      exact ⟨[], _, by simpa using ended⟩
    · obtain ⟨more, ts, spelled⟩ := ih (w := w ++ [c]) (by simp)
      refine ⟨c :: more, ts, ?_⟩
      rw [spell_joined parted]
      simpa [Nat.add_assoc] using spelled

theorem spell_word_iff (word : IsWordText w) (offset : Nat) (rest : List Char) (ts : List Placed) :
    spell offset [] (w ++ rest) = ⟨.word (String.ofList w), offset⟩ :: ts ↔
      Parted w rest ∧ spell (offset + utf8Length w) [] rest = ts := by
  by_cases parted : Parted w rest
  · simp [spell_word word parted, parted]
  · cases rest with
    | nil => exact absurd (parted_end w) parted
    | cons c cs =>
      obtain ⟨more, us, spelled⟩ := spell_grows (w := w ++ [c]) (by simp) offset cs
      rw [utf8Length_append, utf8Length_cons, utf8Length_nil, Nat.add_zero, ← Nat.add_assoc] at spelled
      rw [spell_wordText word, spell_joined parted, spelled]
      simp [parted]

theorem parted_writeAll {last : List Char} (blanks : ∀ c ∈ last, isBlank c = true) {text : String}
    (ws : List Written) :
    Parted text.toList (writeAll last ws) ↔
      ∀ b ∈ ws.head?, b.gap = [] → ¬ Joins (.word text) b.token := by
  cases ws with
  | nil =>
    have parted : Parted text.toList last := by
      cases last with
      | nil => exact parted_end _
      | cons c last => exact parted_blank (blanks c (by simp)) _ _
    simpa [writeAll] using parted
  | cons b rest =>
    obtain ⟨gap, token, blanks, formed⟩ := b
    cases gap with
    | cons c gap => simpa [writeAll] using parted_blank (blanks c (by simp)) text.toList _
    | nil =>
      rcases word_or_symbol formed with ⟨next, same, word⟩ | ⟨c, one⟩
      · subst same
        obtain ⟨c, more, split, inside⟩ := head_of_wordText word
        simp [writeAll, Token.lexeme, split, Parted, inside, Joins.word]
      · have outside : isWordChar c = false := by simp [isWordChar, one]
        simp [writeAll, symbol_lexeme one, Parted, outside, joins_symbol_iff one]

theorem spell_writeAll_iff {last : List Char} (blanks : ∀ c ∈ last, isBlank c = true)
    (ws : List Written) (offset : Nat) :
    spell offset [] (writeAll last ws) = placeAll offset ws ↔ ws.IsChain Written.Apart := by
  induction ws generalizing offset with
  | nil => simpa [writeAll, placeAll, spell, wordBefore] using spell_blanks blanks offset []
  | cons a rest ih =>
    obtain ⟨gap, token, blank, formed⟩ := a
    have stop (start : Nat) : Placed.stop ⟨token, start⟩ = start + utf8Length token.lexeme.toList := by
      rw [Placed.stop, utf8ByteSize_eq]
    rw [List.isChain_cons, writeAll, placeAll, spell_blanks blank, stop]
    rcases word_or_symbol formed with ⟨text, same, word⟩ | ⟨c, one⟩
    · subst same
      have first := spell_word_iff word (offset + utf8Length gap) (writeAll last rest)
        (placeAll (offset + utf8Length gap + utf8Length text.toList) rest)
      rw [String.ofList_toList] at first
      exact first.trans (and_congr (parted_writeAll blanks rest) (ih _))
    · -- a symbol ends where it is written, whatever follows
      have free : ∀ b ∈ rest.head?, Written.Apart ⟨gap, token, blank, formed⟩ b := by
        intro b first empty
        exact symbol_not_joins one
      rw [symbol_lexeme one, List.singleton_append, spell_symbol one,
        ← ih (offset + utf8Length gap + c.utf8Size)]
      simp only [utf8Length_cons, utf8Length_nil, Nat.add_zero, List.cons_eq_cons, true_and]
      exact (and_iff_right free).symm

theorem formed_of_lex {line : String} {t : Placed} (member : t ∈ lex line) : t.token.Formed := by
  obtain ⟨token, offset⟩ := t
  cases token with
  | word text => exact isWord_iff.mp (lex_words member rfl)
  | blank => exact absurd rfl (laid_solid (lex_laid line) _ member).1
  | _ => trivial

/-- Splitting a line undoes writing its tokens, wherever they are written, exactly if a blank stands
    between any two words and between digits with a single `e` and a minus sign. All tokens of a
    line are tokens that can be written. -/
theorem lex_writeAll_iff :
    (∀ (ws : List Written) (last : List Char), (∀ c ∈ last, isBlank c = true) →
      (lex (String.ofList (writeAll last ws)) = placeAll 0 ws ↔ ws.IsChain Written.Apart)) ∧
    ∀ line, ∀ t ∈ lex line, t.token.Formed := by
  constructor
  · intro ws last blanks
    rw [lex, scan_start, String.toList_ofList]
    exact spell_writeAll_iff blanks ws 0
  · intro line t member
    exact formed_of_lex member

/-- A blank keeps the minus sign apart from `1e`. Without it the line is a single word. -/
theorem lex_writeAll_exponent :
    lex "1e -3" = [⟨.word "1e", 0⟩, ⟨.minus, 3⟩, ⟨.word "3", 4⟩] ∧
    lex "1e-3" ≠ [⟨.word "1e", 0⟩, ⟨.minus, 2⟩, ⟨.word "3", 3⟩] := by
  let first : Written :=
    ⟨[], .word "1e", by simp, .inl ⟨by decide, by simp [isWordChar, isBlank, symbol?]⟩⟩
  let last : Written :=
    ⟨[], .word "3", by simp, .inl ⟨by decide, by simp [isWordChar, isBlank, symbol?]⟩⟩
  have joins : Joins (.word "1e") .minus := .minus ['1'] (by decide) (by simp)
  constructor
  · let ws := [first, ⟨[' '], .minus, by simp [isBlank], trivial⟩, last]
    have apart : ws.IsChain Written.Apart := by
      have free : ¬ Joins .minus (.word "3") := by
        intro joins
        cases joins
      simp [ws, last, Written.Apart, free]
    have text : String.ofList (writeAll [] ws) = "1e -3" := by decide
    rw [← text, (lex_writeAll_iff.1 ws [] (by simp)).mpr apart]
    rfl
  · let ws := [first, ⟨[], .minus, by simp, trivial⟩, last]
    intro same
    have text : String.ofList (writeAll [] ws) = "1e-3" := by decide
    rw [← text] at same
    have apart := (lex_writeAll_iff.1 ws [] (by simp)).mp same
    exact (List.isChain_cons_cons.mp apart).1 rfl joins

end Calculator
