import Calculator.Proofs.Columns
import Calculator.Proofs.Words

/- Lines of white space. A session skips them. Evaluated all the same they are rejected, for white space
   that is no blank makes words, and these are no operands; so no line that has a value is skipped. -/
namespace Calculator

/-- The first characters of a line that are not blanks, as far as they go. -/
structure FirstRun (line before run after : String) : Prop where
  parts : line = before ++ run ++ after
  blanks : ∀ c ∈ before.toList, isBlank c = true
  some : run ≠ ""
  solid : ∀ c ∈ run.toList, isBlank c = false
  ends : ∀ c ∈ after.toList.head?, isBlank c = true

variable {c : Char} {line before run after : String}

theorem isWhiteSpace_of_isBlank (blank : isBlank c = true) : isWhiteSpace c = true := by
  simp only [isBlank, Bool.or_eq_true, beq_iff_eq] at blank
  rcases blank with (((rfl | rfl) | rfl) | rfl) | rfl <;> decide

theorem isBlankLine_iff : isBlankLine line = true ↔ ∀ c ∈ line.toList, isWhiteSpace c = true :=
  List.all_eq_true

theorem symbol_of_isWhiteSpace (white : isWhiteSpace c = true) : symbol? c = none := by
  unfold symbol?
  split
  case h_8 => rfl
  all_goals exact absurd white (by decide)

theorem code_of_isWhiteSpace (white : isWhiteSpace c = true) : c.toNat ≤ 32 ∨ 133 ≤ c.toNat := by
  simp [isWhiteSpace, whiteSpaceRanges] at white
  omega

theorem not_operand_of_isWhiteSpace (white : isWhiteSpace c = true) :
    c.isDigit = false ∧ c.isAlpha = false := by
  have code := code_of_isWhiteSpace white
  constructor
  · rw [Bool.eq_false_iff]
    intro digit
    have := code_of_isDigit digit
    omega
  · rw [Bool.eq_false_iff]
    intro letter
    have := code_of_isAlpha letter
    omega

theorem ofWord_whiteSpace {word : String} (white : ∀ c ∈ word.toList, isWhiteSpace c = true) :
    Expr.ofWord word = .error (.unexpectedToken word) := by
  apply ofWord_other
  · intro starts
    obtain ⟨c, first, digit⟩ := starts
    rw [(not_operand_of_isWhiteSpace (white c (List.mem_of_mem_head? first))).1] at digit
    cases digit
  · intro starts
    obtain ⟨c, first, letter⟩ := starts
    rw [(not_operand_of_isWhiteSpace (white c (List.mem_of_mem_head? first))).2] at letter
    cases letter

theorem firstRun_exists (visible : ∃ c ∈ line.toList, isBlank c = false) :
    ∃ before run after, FirstRun line before run after := by
  let rest := line.toList.dropWhile isBlank
  refine ⟨.ofList (line.toList.takeWhile isBlank), .ofList (rest.takeWhile fun c => !isBlank c),
    .ofList (rest.dropWhile fun c => !isBlank c), ?_⟩
  constructor
  case parts =>
    rw [String.append_assoc, ← String.ofList_append, ← String.ofList_append,
      List.takeWhile_append_dropWhile, List.takeWhile_append_dropWhile, String.ofList_toList]
  case blanks =>
    intro c member
    exact List.mem_takeWhile_imp (by simpa using member)
  case some =>
    obtain ⟨c, member, mark⟩ := visible
    have left : rest ≠ [] := by
      intro none
      rw [List.dropWhile_eq_nil_iff.mp none c member] at mark
      cases mark
    obtain ⟨first, tail, chars⟩ := List.exists_cons_of_ne_nil left
    have head : rest.head? = .some first := by rw [chars, List.head?_cons]
    have solid : isBlank first = false := takeWhile_head_false line.toList first head
    simp [chars, solid]
  case solid =>
    intro c member
    have := List.mem_takeWhile_imp (by simpa using member : c ∈ rest.takeWhile fun c => !isBlank c)
    simpa using this
  case ends =>
    intro c first
    have := takeWhile_head_false rest c (by simpa using first)
    simpa using this

theorem lex_firstRun (white : ∀ c ∈ line.toList, isWhiteSpace c = true)
    (first : FirstRun line before run after) :
    ∃ rest, lex line = ⟨.word run, before.utf8ByteSize⟩ :: rest := by
  obtain ⟨rfl, blanks, some, solid, ends⟩ := first
  have word : IsWordText run.toList := by
    refine .inl ⟨mt String.toList_eq_nil_iff.mp some, fun c member => ?_⟩
    exact isWordChar_iff.mpr ⟨solid c member, symbol_of_isWhiteSpace (white c (by simp [member]))⟩
  have parted : Parted run.toList after.toList := by
    cases text : after.toList with
    | nil => exact parted_end _
    | cons c cs => exact parted_blank (ends c (by simp [text])) _ _
  rw [lex, scan_start, String.toList_append, String.toList_append, List.append_assoc,
    spell_blanks blanks, spell_word word parted, String.ofList_toList, Nat.zero_add,
    utf8ByteSize_eq]
  exact ⟨_, rfl⟩

theorem equals_not_mem_of_white (white : ∀ c ∈ line.toList, isWhiteSpace c = true) :
    Token.equals ∉ tokensOf (lex line) := by
  intro member
  obtain ⟨t, placed, same⟩ := List.mem_map.mp member
  obtain ⟨before, after, split, -⟩ := stands_of_mem (lex_laid line) placed
  rw [same] at split
  have mark : isWhiteSpace '=' = true := white '=' (by simp [split, Token.lexeme])
  revert mark
  decide

theorem ofTokens_firstRun (white : ∀ c ∈ line.toList, isWhiteSpace c = true)
    (first : FirstRun line before run after) :
    Expr.ofTokens (lex line) = .error ⟨.unexpectedToken run, before.utf8ByteSize + 1⟩ := by
  have plain := equals_not_mem_of_white white
  obtain ⟨rest, tokens⟩ := lex_firstRun white first
  have refused : Expr.ofWord run = .error (.unexpectedToken run) := by
    apply ofWord_whiteSpace
    intro c member
    exact white c (by simp [first.parts, member])
  have told : diagnoseLine (lex line) = some ⟨.unexpectedToken run, before.utf8ByteSize + 1⟩ := by
    rw [tokens] at plain ⊢
    unfold diagnoseLine
    -- no equals sign comes second, so the run is read as an operand
    split
    · rename_i same
      obtain rfl := (List.cons.inj same).2
      exact absurd (by simp [tokensOf]) plain
    · simp only [diagnose, refused]
  rwa [diagnoseLine_eq, rejection_some_iff] at told

theorem lex_eq_nil_iff : lex line = [] ↔ ∀ c ∈ line.toList, isBlank c = true := by
  constructor
  · intro none
    have laid := lex_laid line
    rw [none] at laid
    exact blanks_of_laid laid
  · intro blanks
    rw [lex, scan_start, ← List.append_nil line.toList, spell_blanks blanks]
    rfl

theorem ofTokens_blanks (blanks : ∀ c ∈ line.toList, isBlank c = true) :
    Expr.ofTokens (lex line) = .error ⟨.unexpectedEnd, 1⟩ := by
  rw [lex_eq_nil_iff.mpr blanks, ofTokens_eq]
  rfl

theorem ofTokens_white (white : ∀ c ∈ line.toList, isWhiteSpace c = true) :
    ∃ error, Expr.ofTokens (lex line) = .error error := by
  by_cases visible : ∃ c ∈ line.toList, isBlank c = false
  · obtain ⟨before, run, after, first⟩ := firstRun_exists visible
    exact ⟨_, ofTokens_firstRun white first⟩
  · exact ⟨_, ofTokens_blanks (by simpa using visible)⟩

theorem enter_blank_iff (session : Session) :
    (session.enter line).reply = .blank ↔ ∀ c ∈ line.toList, isWhiteSpace c = true := by
  rw [← isBlankLine_iff, enter_eq, reading?]
  cases isBlankLine line with
  | true => simp
  | false =>
    simp only [Bool.false_eq_true, ↓reduceIte, iff_false]
    rcases Expr.ofTokens (lex line) with error | e <;> exact nofun

theorem lex_of_error {s : Store} (ended : (s.runLine line).result = .error ⟨.unexpectedEnd, 1⟩) :
    lex line = [] := by
  have told := ofTokens_told (ofTokens_of_runLine ended)
  generalize same : (⟨.unexpectedEnd, 1⟩ : LineError) = error at told
  cases told with
  | token split refused full =>
    obtain rfl := congrArg LineError.fault same
    cases refused
  | ending kind =>
    have first : 1 = columnAfter (lex line) := congrArg LineError.column same
    rw [List.eq_nil_iff_forall_not_mem]
    intro t member
    have inside : t.offset + 1 < columnAfter (lex line) := column_lt_columnAfter (lex_laid line) t member
    omega

/-- A session skips the lines of white space and no others. To evaluate one is an error all the same,
    told of its first run or, where all of it is blank, of its end; no other line ends in the first
    column. -/
theorem skipped_line_rejected (session : Session) (s : Store) (line : String) :
    ((session.enter line).reply = .blank ↔ ∀ c ∈ line.toList, isWhiteSpace c = true) ∧
    ((session.enter line).reply = .blank →
      (s.runLine line).store = s ∧
      ((∀ c ∈ line.toList, isBlank c = true) →
        (s.runLine line).result = .error ⟨.unexpectedEnd, 1⟩) ∧
      ((∃ c ∈ line.toList, isBlank c = false) →
        ∃ before run after, FirstRun line before run after) ∧
      ∀ before run after, FirstRun line before run after →
        (s.runLine line).result = .error ⟨.unexpectedToken run, before.utf8ByteSize + 1⟩) ∧
    (lex line = [] → (session.enter line).reply = .blank) ∧
    ((session.enter line).reply ≠ .blank →
      (s.runLine line).result ≠ .error ⟨.unexpectedEnd, 1⟩) := by
  have skipped (none : lex line = []) : (session.enter line).reply = .blank := by
    rw [enter_blank_iff]
    intro c member
    exact isWhiteSpace_of_isBlank (lex_eq_nil_iff.mp none c member)
  refine ⟨enter_blank_iff session, fun blank => ?_, skipped, fun visible ended => ?_⟩
  · have white := (enter_blank_iff session).mp blank
    obtain ⟨error, rejected⟩ := ofTokens_white white
    refine ⟨?_, fun blanks => ?_, firstRun_exists, fun before run after first => ?_⟩
    · rw [runLine_rejected rejected]
    · rw [runLine_rejected (ofTokens_blanks blanks)]
    · rw [runLine_rejected (ofTokens_firstRun white first)]
  · exact visible (skipped (lex_of_error ended))

/-- A tab, which is a blank, then two characters that are none, then one more after a blank. -/
theorem skipped_line_rejected_mixed :
    (Session.fresh.enter "\t\u00a0\u2003 \u0085").reply = .blank ∧
    (Store.fresh.runLine "\t\u00a0\u2003 \u0085").store = .fresh ∧
    (Store.fresh.runLine "\t\u00a0\u2003 \u0085").result =
      .error ⟨.unexpectedToken "\u00a0\u2003", 2⟩ := by
  have first : FirstRun "\t\u00a0\u2003 \u0085" "\t" "\u00a0\u2003" " \u0085" := by
    constructor
    case parts => decide
    case some => decide
    all_goals simp [isBlank]
  obtain ⟨skips, rejected, -⟩ :=
    skipped_line_rejected .fresh .fresh "\t\u00a0\u2003 \u0085"
  have blank := skips.mpr (by simp [isWhiteSpace, whiteSpaceRanges])
  obtain ⟨kept, -, -, told⟩ := rejected blank
  exact ⟨blank, kept, told _ _ _ first⟩

end Calculator
