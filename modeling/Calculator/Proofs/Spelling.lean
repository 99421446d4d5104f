import Calculator.Spelling
import Mathlib.Data.List.TakeWhile

/- Taking the longest match and going on character by character split a line alike. Both end a word
   where it can grow no further, and every word of a line has one of two forms. -/
namespace Calculator

def IsWordText (w : List Char) : Prop :=
  (w ≠ [] ∧ ∀ c ∈ w, isWordChar c = true) ∨
  ∃ digits rest, w = digits ++ 'e' :: '-' :: rest ∧ (∀ c ∈ digits, c.isDigit = true) ∧
    ∀ c ∈ rest, isWordChar c = true

def Parted (w rest : List Char) : Prop :=
  ∀ c ∈ rest.head?, isWordChar c = false ∧ (c = '-' → takesMinus w = false)

theorem mem_gaps_iff {c : Char} : c ∈ gaps ↔ isBlank c = true := by
  simp [gaps, isBlank, or_assoc]

theorem lookup_marks (c : Char) : marks.lookup c = symbol? c := by
  unfold symbol?
  split
  case h_8 =>
    rename_i plus minus star slash equals opening closing
    refine List.lookup_eq_none_iff.mpr ?_
    simpa [marks] using ⟨plus, minus, star, slash, equals, opening, closing⟩
  all_goals rfl

theorem spell_cons (offset : Nat) (word : List Char) (c : Char) (cs : List Char) :
    spell offset word (c :: cs) =
      if isBlank c then wordBefore offset word ++ spell (offset + c.utf8Size) [] cs
      else
        match symbol? c with
        | none => spell (offset + c.utf8Size) (word ++ [c]) cs
        | some t =>
          if t = .minus ∧ takesMinus word then spell (offset + c.utf8Size) (word ++ [c]) cs
          else wordBefore offset word ++ ⟨t, offset⟩ :: spell (offset + c.utf8Size) [] cs := by
  cases blank : isBlank c with
  | true => simp [spell, mem_gaps_iff, blank]
  | false => cases one : symbol? c <;> simp [spell, mem_gaps_iff, lookup_marks, blank, one]

theorem isWordChar_iff {c : Char} :
    isWordChar c = true ↔ isBlank c = false ∧ symbol? c = none := by
  simp [isWordChar]

theorem symbol_of_not_word {c : Char} (outside : isWordChar c = false) (mark : isBlank c = false) :
    ∃ t, symbol? c = some t := by
  cases one : symbol? c with
  | none => simp [isWordChar, one, mark] at outside
  | some t => exact ⟨t, rfl⟩

theorem not_blank_of_symbol {c : Char} {t : Token} (one : symbol? c = some t) :
    isBlank c = false := by
  unfold symbol? at one
  split at one <;> first | rfl | cases one

theorem symbol_eq_minus_iff {c : Char} {t : Token} (one : symbol? c = some t) :
    t = .minus ↔ c = '-' := by
  unfold symbol? at one
  split at one
  all_goals cases one
  all_goals simp

theorem isWordChar_of_isDigit {c : Char} (digit : c.isDigit = true) : isWordChar c = true := by
  rw [isWordChar_iff]
  constructor
  · cases blank : isBlank c with
    | false => rfl
    | true =>
      simp only [isBlank, Bool.or_eq_true, beq_iff_eq] at blank
      rcases blank with (((rfl | rfl) | rfl) | rfl) | rfl <;> cases digit
  · cases one : symbol? c with
    | none => rfl
    | some t =>
      unfold symbol? at one
      split at one <;> first | cases digit | cases one

theorem parted_end (w : List Char) : Parted w [] := by simp [Parted]

theorem parted_blank {c : Char} (blank : isBlank c = true) (w rest : List Char) :
    Parted w (c :: rest) := by
  intro d first
  obtain rfl := Option.some.inj first
  refine ⟨by simp [isWordChar, blank], ?_⟩
  rintro rfl
  cases blank

theorem takesMinus_digits {digits : List Char} (all : ∀ c ∈ digits, c.isDigit = true) :
    takesMinus (digits ++ ['e']) = true := by
  simp [takesMinus, List.dropWhile_append_of_pos all, List.dropWhile]

theorem digits_of_takesMinus {w : List Char} (takes : takesMinus w = true) :
    ∃ digits, w = digits ++ ['e'] ∧ ∀ c ∈ digits, c.isDigit = true := by
  refine ⟨w.takeWhile Char.isDigit, ?_, fun c member => List.mem_takeWhile_imp member⟩
  rw [takesMinus, beq_iff_eq] at takes
  rw [← takes, List.takeWhile_append_dropWhile]

theorem spell_run {xs : List Char} (all : ∀ c ∈ xs, isWordChar c = true) (offset : Nat)
    (w rest : List Char) :
    spell offset w (xs ++ rest) = spell (offset + utf8Length xs) (w ++ xs) rest := by
  induction xs generalizing offset w with
  | nil => simp
  | cons c xs ih =>
    obtain ⟨mark, one⟩ := isWordChar_iff.mp (all c (by simp))
    have tail := ih (fun x member => all x (List.mem_cons_of_mem c member))
      (offset + c.utf8Size) (w ++ [c])
    have length : offset + c.utf8Size + utf8Length xs = offset + utf8Length (c :: xs) := by
      simp [Nat.add_assoc]
    simp only [List.cons_append, spell_cons, mark, Bool.false_eq_true, ↓reduceIte, one, tail, length,
      List.append_assoc, List.nil_append]

theorem spell_wordText {w : List Char} (word : IsWordText w) (offset : Nat) (rest : List Char) :
    spell offset [] (w ++ rest) = spell (offset + utf8Length w) w rest := by
  rcases word with ⟨-, plain⟩ | ⟨digits, tail, rfl, all, plain⟩
  · exact spell_run plain offset [] rest
  · have head : ∀ c ∈ digits ++ ['e'], isWordChar c = true := by
      intro c member
      rcases List.mem_append.mp member with digit | e
      · exact isWordChar_of_isDigit (all c digit)
      · obtain rfl := List.mem_singleton.mp e
        rfl
    have length : offset + utf8Length (digits ++ ['e']) + '-'.utf8Size + utf8Length tail =
        offset + utf8Length (digits ++ 'e' :: '-' :: tail) := by
      simp
      omega
    have split : digits ++ 'e' :: '-' :: tail ++ rest =
        (digits ++ ['e']) ++ '-' :: (tail ++ rest) := by simp
    rw [split, spell_run head, List.nil_append, spell_cons]
    simp only [show isBlank '-' = false from rfl, Bool.false_eq_true, ↓reduceIte,
      show symbol? '-' = some .minus from rfl, takesMinus_digits all, and_self]
    rw [spell_run plain, length]
    simp

theorem spell_parted {w rest : List Char} (parted : Parted w rest) (offset : Nat) :
    spell offset w rest = wordBefore offset w ++ spell offset [] rest := by
  cases rest with
  | nil => simp [spell, wordBefore]
  | cons c rest =>
    obtain ⟨outside, stays⟩ := parted c rfl
    cases mark : isBlank c with
    | true => simp [spell_cons, mark, wordBefore]
    | false =>
      obtain ⟨t, one⟩ := symbol_of_not_word outside mark
      have ends : ¬ (t = .minus ∧ takesMinus w = true) := by
        intro both
        obtain ⟨minus, takes⟩ := both
        rw [stays ((symbol_eq_minus_iff one).mp minus)] at takes
        cases takes
      have empty : takesMinus [] = false := rfl
      simp only [spell_cons, mark, Bool.false_eq_true, ↓reduceIte, one, ends, empty, and_false]
      rfl

theorem wordBefore_some {w : List Char} (some : w ≠ []) (offset : Nat) :
    wordBefore (offset + utf8Length w) w = [⟨.word (String.ofList w), offset⟩] := by
  obtain ⟨c, rest, rfl⟩ := List.exists_cons_of_ne_nil some
  simp [wordBefore]

theorem head_of_wordText {w : List Char} (word : IsWordText w) :
    ∃ c rest, w = c :: rest ∧ isWordChar c = true := by
  rcases word with ⟨some, plain⟩ | ⟨digits, rest, rfl, all, -⟩
  · obtain ⟨c, rest, rfl⟩ := List.exists_cons_of_ne_nil some
    exact ⟨c, rest, rfl, plain c (by simp)⟩
  · cases digits with
    | nil => exact ⟨'e', _, rfl, by decide⟩
    | cons d digits => exact ⟨d, _, rfl, isWordChar_of_isDigit (all d (by simp))⟩

theorem spell_word {w rest : List Char} (word : IsWordText w) (parted : Parted w rest)
    (offset : Nat) :
    spell offset [] (w ++ rest) =
      ⟨.word (String.ofList w), offset⟩ :: spell (offset + utf8Length w) [] rest := by
  have some : w ≠ [] := by
    obtain ⟨c, tail, rfl, -⟩ := head_of_wordText word
    simp
  rw [spell_wordText word, spell_parted parted, wordBefore_some some]
  rfl

theorem spell_symbol {c : Char} {t : Token} (one : symbol? c = some t) (offset : Nat)
    (rest : List Char) :
    spell offset [] (c :: rest) = ⟨t, offset⟩ :: spell (offset + c.utf8Size) [] rest := by
  simp [spell_cons, not_blank_of_symbol one, one, takesMinus, wordBefore]

theorem spell_blanks {xs : List Char} (all : ∀ c ∈ xs, isBlank c = true) (offset : Nat)
    (rest : List Char) :
    spell offset [] (xs ++ rest) = spell (offset + utf8Length xs) [] rest := by
  induction xs generalizing offset with
  | nil => simp
  | cons c xs ih =>
    have tail := ih (fun x member => all x (List.mem_cons_of_mem c member)) (offset + c.utf8Size)
    simp [spell_cons, all c (by simp), wordBefore, tail, Nat.add_assoc]

theorem spell_blank_end {c : Char} (blank : isBlank c = true) (offset : Nat) (w cs : List Char) :
    spell offset w (cs ++ [c]) = spell offset w cs := by
  induction cs generalizing offset w with
  | nil => simp [spell, spell_cons, blank, wordBefore]
  | cons d cs ih => simp only [List.cons_append, spell_cons, ih]

theorem exponentWord_reach {digits : List Char} (all : ∀ c ∈ digits, c.isDigit = true)
    (rest : List Char) :
    Pattern.exponentWord.reach (digits ++ 'e' :: '-' :: rest) =
      digits.length + 2 + (rest.takeWhile isWordChar).length := by
  simp [Pattern.reach, List.dropWhile_append_of_pos all, List.takeWhile_append_of_pos all,
    List.dropWhile, List.takeWhile]

theorem exponentWord_reach_pos {cs : List Char} (matched : 0 < Pattern.exponentWord.reach cs) :
    ∃ digits rest, cs = digits ++ 'e' :: '-' :: rest ∧ ∀ c ∈ digits, c.isDigit = true := by
  simp only [Pattern.reach] at matched
  split at matched
  · rename_i rest rest_eq
    refine ⟨cs.takeWhile Char.isDigit, rest, ?_, fun c member => List.mem_takeWhile_imp member⟩
    rw [← rest_eq, List.takeWhile_append_dropWhile]
  · omega

theorem exponentWord_reach_zero {c : Char} (outside : isWordChar c = false) (cs : List Char) :
    Pattern.exponentWord.reach (c :: cs) = 0 := by
  by_contra matched
  obtain ⟨digits, rest, split, all⟩ := exponentWord_reach_pos (Nat.pos_of_ne_zero matched)
  have inside : isWordChar c = true := by
    cases digits with
    | nil =>
      obtain ⟨rfl, -⟩ := List.cons.inj split
      rfl
    | cons d digits =>
      obtain ⟨rfl, -⟩ := List.cons.inj split
      exact isWordChar_of_isDigit (all c (by simp))
  rw [inside] at outside
  cases outside

theorem longest_blank {c : Char} (mark : isBlank c = true) (cs : List Char) :
    longest (c :: cs) = .blanks := by
  have outside : isWordChar c = false := by simp [isWordChar, mark]
  have single : symbol? c = none := by
    cases one : symbol? c with
    | none => rfl
    | some t => rw [not_blank_of_symbol one] at mark; cases mark
  have exponent := exponentWord_reach_zero outside cs
  have plain : Pattern.plainWord.reach (c :: cs) = 0 := by simp [Pattern.reach, outside]
  have symbol : Pattern.symbol.reach (c :: cs) = 0 := by simp [Pattern.reach, single]
  simp [longest, longer, symbol, plain, exponent]

theorem longest_symbol {c : Char} {t : Token} (one : symbol? c = some t) (cs : List Char) :
    longest (c :: cs) = .symbol := by
  have mark := not_blank_of_symbol one
  have outside : isWordChar c = false := by simp [isWordChar, one]
  have exponent := exponentWord_reach_zero outside cs
  have plain : Pattern.plainWord.reach (c :: cs) = 0 := by simp [Pattern.reach, outside]
  have blanks : Pattern.blanks.reach (c :: cs) = 0 := by simp [Pattern.reach, mark]
  have symbol : Pattern.symbol.reach (c :: cs) = 1 := by simp [Pattern.reach, one]
  simp [longest, longer, blanks, symbol, plain, exponent]

theorem longest_word {c : Char} (inside : isWordChar c = true) (cs : List Char) :
    longest (c :: cs) =
      if Pattern.plainWord.reach (c :: cs) < Pattern.exponentWord.reach (c :: cs) then .exponentWord
      else .plainWord := by
  obtain ⟨mark, one⟩ := isWordChar_iff.mp inside
  have blanks : Pattern.blanks.reach (c :: cs) = 0 := by simp [Pattern.reach, mark]
  have symbol : Pattern.symbol.reach (c :: cs) = 0 := by simp [Pattern.reach, one]
  have plain : 0 < Pattern.plainWord.reach (c :: cs) := by simp [Pattern.reach, inside]
  simp [longest, longer, blanks, symbol, plain]

theorem takeWhile_head_false {p : Char → Bool} (cs : List Char) :
    ∀ c ∈ (cs.dropWhile p).head?, p c = false := by
  intro c member
  have := List.head?_dropWhile_not p cs
  rw [Option.mem_def.mp member] at this
  simpa using this

theorem longest_parted {c : Char} (inside : isWordChar c = true) (cs : List Char) :
    ∃ w rest, c :: cs = w ++ rest ∧ IsWordText w ∧ Parted w rest ∧
      (longest (c :: cs)).reach (c :: cs) = w.length ∧
      (longest (c :: cs)).token? w = some (.word (String.ofList w)) := by
  rw [longest_word inside]
  split
  · rename_i longer
    obtain ⟨digits, tail, split, all⟩ := exponentWord_reach_pos (Nat.zero_lt_of_lt longer)
    have exponent := exponentWord_reach all tail
    refine ⟨digits ++ 'e' :: '-' :: tail.takeWhile isWordChar, tail.dropWhile isWordChar, ?_,
      .inr ⟨digits, _, rfl, all, fun x member => List.mem_takeWhile_imp member⟩, ?_, ?_, rfl⟩
    · simpa using split
    · intro x member
      refine ⟨takeWhile_head_false tail x member, fun _ => ?_⟩
      simp [takesMinus, List.dropWhile_append_of_pos all, List.dropWhile]
    · rw [split, exponent]
      simp
      omega
  · rename_i longest
    refine ⟨(c :: cs).takeWhile isWordChar, (c :: cs).dropWhile isWordChar, by simp, .inl ⟨?_, ?_⟩,
      ?_, rfl, rfl⟩
    · simp [inside]
    · exact fun x member => List.mem_takeWhile_imp member
    · intro x member
      refine ⟨takeWhile_head_false _ x member, ?_⟩
      rintro rfl
      by_contra takes
      obtain ⟨digits, word, all⟩ := digits_of_takesMinus ((Bool.not_eq_false _).mp takes)
      obtain ⟨tail, rest⟩ : ∃ tail, (c :: cs).dropWhile isWordChar = '-' :: tail := by
        cases drop : (c :: cs).dropWhile isWordChar with
        | nil => simp [drop] at member
        | cons d tail =>
          simp only [drop, List.head?_cons, Option.mem_def, Option.some.injEq] at member
          exact ⟨tail, by rw [member]⟩
      have split : c :: cs = digits ++ 'e' :: '-' :: tail := by
        rw [← List.takeWhile_append_dropWhile (p := isWordChar) (l := c :: cs), word, rest]
        simp
      have exponent := exponentWord_reach all tail
      have plain : Pattern.plainWord.reach (c :: cs) = digits.length + 1 := by
        simp [Pattern.reach, word]
      rw [plain, split, exponent] at longest
      omega

theorem spell_longest (offset : Nat) (c : Char) (cs : List Char) :
    ∃ text rest, c :: cs = text ++ rest ∧ (longest (c :: cs)).reach (c :: cs) = text.length ∧
      spell offset [] (c :: cs) = record offset [] ((longest (c :: cs)).token? text) ++
        spell (offset + utf8Length text) [] rest := by
  cases mark : isBlank c with
  | true =>
    have split := List.takeWhile_append_dropWhile (p := isBlank) (l := c :: cs)
    have skip : spell offset [] ((c :: cs).takeWhile isBlank ++ (c :: cs).dropWhile isBlank) = _ :=
      spell_blanks (fun x member => List.mem_takeWhile_imp member) offset _
    rw [split] at skip
    rw [longest_blank mark]
    exact ⟨_, _, split.symm, rfl, skip⟩
  | false =>
    cases inside : isWordChar c with
    | true =>
      obtain ⟨w, rest, split, word, parted, reach, token⟩ := longest_parted inside cs
      refine ⟨w, rest, split, reach, ?_⟩
      rw [token, split]
      exact spell_word word parted offset
    | false =>
      obtain ⟨t, one⟩ := symbol_of_not_word inside mark
      refine ⟨[c], cs, rfl, ?_, ?_⟩ <;> rw [longest_symbol one]
      · simp [Pattern.reach, one]
      · rw [spell_symbol one]
        simp [Pattern.token?, one, record]

theorem scan_eq_spell (offset : Nat) (read : List Placed) (cs : List Char) :
    scan offset read cs = read.reverse ++ spell offset [] cs := by
  fun_induction scan offset read cs with
  | case1 => simp [spell, wordBefore]
  | case2 offset read c cs found text ih =>
    obtain ⟨first, rest, split, reach, spelled⟩ := spell_longest offset c cs
    have taken : text = first := by
      simp only [text, found, reach]
      rw [split, List.take_left]
    have left : (c :: cs).drop (found.reach (c :: cs)) = rest := by
      simp only [found, reach]
      rw [split, List.drop_left]
    rw [ih, left, taken, spelled, ← List.append_assoc]
    cases found.token? first <;> simp [record]

theorem scan_start (offset : Nat) (cs : List Char) : scan offset [] cs = spell offset [] cs :=
  scan_eq_spell offset [] cs

/-- The tokens of a line are those that the rule for single characters gives. -/
theorem lex_eq_spell (line : String) : lex line = spell 0 [] line.toList := by
  unfold lex
  rw [scan_eq_spell]
  rfl

theorem lex_blank_end {c : Char} (blank : isBlank c = true) (cs : List Char) :
    lex (String.ofList (cs ++ [c])) = lex (String.ofList cs) := by
  simp [lex, scan_start, spell_blank_end blank]

/-- One minus sign goes on with the word, the next one does not. -/
example : lex "12e-3-4" = [⟨.word "12e-3", 0⟩, ⟨.minus, 5⟩, ⟨.word "4", 6⟩] := by cbv

theorem wordText_snoc {w : List Char} (word : w = [] ∨ IsWordText w) {c : Char}
    (inside : isWordChar c = true) : IsWordText (w ++ [c]) := by
  have snoc {xs : List Char} (all : ∀ x ∈ xs, isWordChar x = true) :
      ∀ x ∈ xs ++ [c], isWordChar x = true := by
    intro x member
    rcases List.mem_append.mp member with old | new
    · exact all x old
    · rwa [List.mem_singleton.mp new]
  rcases word with rfl | ⟨-, plain⟩ | ⟨digits, rest, rfl, all, plain⟩
  · exact .inl ⟨by simp, snoc (by simp)⟩
  · exact .inl ⟨by simp, snoc plain⟩
  · exact .inr ⟨digits, rest ++ [c], by simp, all, snoc plain⟩

theorem wordText_minus {w : List Char} (takes : takesMinus w = true) :
    IsWordText (w ++ ['-']) := by
  obtain ⟨digits, rfl, all⟩ := digits_of_takesMinus takes
  exact .inr ⟨digits, [], by simp, all, by simp⟩

theorem word_of_wordBefore {w : List Char} (word : w = [] ∨ IsWordText w) {offset : Nat}
    {text : String} {t : Placed} (member : t ∈ wordBefore offset w) (same : t.token = .word text) :
    IsWordText text.toList := by
  cases w with
  | nil => cases member
  | cons c w =>
    obtain rfl := List.mem_singleton.mp member
    obtain rfl := Token.word.inj same
    rw [String.toList_ofList]
    exact word.resolve_left (by simp)

theorem symbol_not_word {c : Char} {text : String} : symbol? c ≠ some (.word text) := by
  intro one
  unfold symbol? at one
  split at one <;> cases one

theorem spell_words {w : List Char} (word : w = [] ∨ IsWordText w) (offset : Nat) (cs : List Char)
    {text : String} {t : Placed} (member : t ∈ spell offset w cs) (same : t.token = .word text) :
    IsWordText text.toList := by
  induction cs generalizing offset w with
  | nil => exact word_of_wordBefore word member same
  | cons c cs ih =>
    rw [spell_cons] at member
    split at member
    · rcases List.mem_append.mp member with before | after
      · exact word_of_wordBefore word before same
      · exact ih (.inl rfl) _ after
    · rename_i mark
      split at member
      · rename_i one
        have inside : isWordChar c = true := isWordChar_iff.mpr ⟨by simpa using mark, one⟩
        exact ih (.inr (wordText_snoc word inside)) _ member
      · rename_i symbol one
        split at member
        · rename_i takes
          obtain rfl := (symbol_eq_minus_iff one).mp takes.1
          exact ih (.inr (wordText_minus takes.2)) _ member
        · rcases List.mem_append.mp member with before | after
          · exact word_of_wordBefore word before same
          · rcases List.mem_cons.mp after with rfl | after
            · obtain rfl : symbol = .word text := same
              exact absurd one symbol_not_word
            · exact ih (.inl rfl) _ after

def IsWord (text : String) : Prop := lex text = [⟨.word text, 0⟩]

theorem isWord_iff {text : String} : IsWord text ↔ IsWordText text.toList := by
  rw [IsWord, lex, scan_start]
  constructor
  · intro single
    exact spell_words (.inl rfl) 0 text.toList (t := ⟨.word text, 0⟩) (by simp [single]) rfl
  · intro word
    have alone : spell 0 [] (text.toList ++ []) = _ := spell_word word (parted_end _) 0
    simpa [spell, spell_cons, wordBefore] using alone

theorem lex_words {line text : String} {t : Placed} (member : t ∈ lex line)
    (same : t.token = .word text) : IsWord text := by
  rw [lex, scan_start] at member
  exact isWord_iff.mpr (spell_words (.inl rfl) 0 line.toList member same)

end Calculator
