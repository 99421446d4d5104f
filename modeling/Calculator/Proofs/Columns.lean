import Calculator.Proofs.Coverage
import Calculator.Proofs.Diagnosis
import Calculator.Proofs.Operand
import Calculator.Proofs.Session

/- Where errors point. An error is told of one token, in the column of that token, or of the end, in the
   column after the last one; how tokens lie in a line says what text stands there. -/
namespace Calculator

def Fault.payload? : Fault → Option String
  | .unexpectedToken lexeme | .trailingTokens lexeme | .invalidNumber lexeme | .invalidTarget lexeme =>
    some lexeme
  | .unexpectedEnd | .missingCloseParen | .unexpectedOpenParen | .nestedTooDeeply _ => none

/-- From the offset on there are blanks only, and none just before it. -/
def EndsAt (line : String) (offset : Nat) : Prop :=
  ∃ before after : String, line = before ++ after ∧ before.utf8ByteSize = offset ∧
    (∀ c ∈ after.toList, isBlank c = true) ∧ ∀ c ∈ before.toList.getLast?, isBlank c = false

/-- The column of an error lies in the line, and what the error is about stands there. -/
structure LineError.PointsInto (error : LineError) (line : String) : Prop where
  bounds : 1 ≤ error.column ∧ error.column ≤ line.utf8ByteSize + 1
  boundary : (⟨error.column - 1⟩ : String.Pos.Raw).IsValid line
  payload : ∀ text, error.fault.payload? = some text →
    text ≠ "" ∧ Stands line text (error.column - 1) ∧
      ∃ t ∈ lex line, t.token.lexeme = text ∧ t.column = error.column
  opening : error.fault = .unexpectedOpenParen ∨ (∃ limit, error.fault = .nestedTooDeeply limit) →
    Stands line "(" (error.column - 1)
  ending : error.fault = .unexpectedEnd → EndsAt line (error.column - 1)
  unclosed : error.fault = .missingCloseParen → EndsAt line (error.column - 1) ∨
    ∃ t ∈ lex line, t.column = error.column ∧ t.token ≠ .closeParen
  deep : ∀ limit, error.fault = .nestedTooDeeply limit →
    512 ≤ (lex line).countP fun t => t.token = .openParen ∧ t.column < error.column

inductive Refused (t : Placed) : Fault → Prop where
  | unexpected : Refused t (.unexpectedToken t.token.lexeme)
  | trailing : Refused t (.trailingTokens t.token.lexeme)
  | number : Refused t (.invalidNumber t.token.lexeme)
  | target : Refused t (.invalidTarget t.token.lexeme)
  | opening (paren : t.token = .openParen) : Refused t .unexpectedOpenParen
  | deep (limit : Nat) (paren : t.token = .openParen) : Refused t (.nestedTooDeeply limit)
  | unclosed (other : t.token ≠ .closeParen) : Refused t .missingCloseParen

/-- An error in tokens that stand inside so many parentheses; the column is that of the end. -/
inductive Told (column depth : Nat) (ts : List Placed) : LineError → Prop where
  | token {before after : List Placed} {t : Placed} {fault : Fault} (line : ts = before ++ t :: after)
      (refused : Refused t fault)
      (full : (∃ limit, fault = .nestedTooDeeply limit) →
        maxDepth ≤ depth + (tokensOf before).count .openParen) :
      Told column depth ts ⟨fault, t.column⟩
  | ending {fault : Fault} (kind : fault = .unexpectedEnd ∨ fault = .missingCloseParen) :
      Told column depth ts ⟨fault, column⟩

variable {column depth : Nat} {mode : Mode} {t : Placed} {ts : List Placed} {error : LineError}
  {fault : Fault} {line : String}

theorem told_first {rest : List Placed} (refused : Refused t fault)
    (full : (∃ limit, fault = .nestedTooDeeply limit) → maxDepth ≤ depth) :
    Told column depth (t :: rest) ⟨fault, t.column⟩ :=
  .token (List.nil_append _).symm refused full

theorem told_later {next : Nat} (told : Told column next ts error)
    (opens : next ≤ depth + [t.token].count .openParen) : Told column depth (t :: ts) error := by
  cases told with
  | ending kind => exact .ending kind
  | token line refused full =>
    rename_i before after other fault
    have further : t :: ts = (t :: before) ++ other :: after := congrArg (t :: ·) line
    refine .token further refused fun deep => ?_
    have := full deep
    rw [tokensOf, List.map_cons, ← List.singleton_append, List.count_append]
    unfold tokensOf at this
    omega

theorem refused_word {word : String} (text : t.token = .word word)
    (failed : Expr.ofWord word = .error fault) : Refused t fault := by
  have same : t.token.lexeme = word := by rw [text, Token.lexeme]
  rcases ofWord_error failed with rfl | rfl
  · exact same ▸ .unexpected
  · exact same ▸ .number

theorem ofWord_not_deep {word : String} (failed : Expr.ofWord word = .error fault) :
    ¬ ∃ limit, fault = .nestedTooDeeply limit := by
  rcases ofWord_error failed with rfl | rfl <;> simp

theorem diagnose_told (found : diagnose column mode depth ts = some error) :
    Told column depth ts error := by
  fun_induction diagnose column mode depth ts with
  | case1 => cases found
  | case2 | case3 =>
    obtain rfl := Option.some.inj found
    exact .ending (by simp)
  -- the tokens that are taken, but for an opening parenthesis, which alone adds to the depth
  | case4 | case5 | case6 | case7 | case8 | case12 | case15 =>
    rename_i ih
    exact told_later (ih found) (by omega)
  | case14 =>
    rename_i paren inside ih
    exact told_later (ih found) (by simp [paren])
  -- what is refused after an operand
  | case9 depth t rest paren =>
    obtain rfl := Option.some.inj found
    exact told_first (.opening paren) (by simp)
  | case10 =>
    rename_i other _
    obtain rfl := Option.some.inj found
    exact told_first (.unclosed other) (by simp)
  | case11 =>
    obtain rfl := Option.some.inj found
    exact told_first .trailing (by simp)
  -- what is refused as an operand
  | case13 mode t rest primary paren =>
    obtain rfl := Option.some.inj found
    exact told_first (.deep maxDepth paren) fun _ => Nat.le_refl maxDepth
  | case16 =>
    rename_i word text fault failed
    obtain rfl := Option.some.inj found
    exact told_first (refused_word text failed) fun deep => absurd deep (ofWord_not_deep failed)
  | case17 =>
    obtain rfl := Option.some.inj found
    exact told_first .unexpected (by simp)

theorem diagnoseLine_told (found : diagnoseLine ts = some error) :
    Told (endColumn ts) 0 ts error := by
  unfold diagnoseLine at found
  split at found
  · rename_i target offset rest
    split at found
    · have value : Told (endColumn _) 0 (⟨.equals, offset⟩ :: rest) error :=
        told_later (diagnose_told found) (Nat.zero_le _)
      exact told_later value (Nat.zero_le _)
    · obtain rfl := Option.some.inj found
      exact told_first .target (by simp)
  · exact diagnose_told found

theorem ofTokens_told (read : Expr.ofTokens ts = .error error) : Told (columnAfter ts) 0 ts error := by
  apply diagnoseLine_told
  rw [diagnoseLine_eq, rejection_some_iff]
  exact read

theorem ofTokens_of_runLine {s : Store} (rejected : (s.runLine line).result = .error error) :
    Expr.ofTokens (lex line) = .error error := by
  cases read : Expr.ofTokens (lex line) with
  | error found =>
    rw [runLine_rejected read] at rejected
    exact congrArg Except.error (Except.error.inj rejected)
  | ok e =>
    rw [runLine_accepted read] at rejected
    cases rejected

theorem endsAt_columnAfter (line : String) : EndsAt line (columnAfter (lex line) - 1) := by
  have laid := lex_laid line
  rcases List.eq_nil_or_concat (lex line) with none | ⟨before, last, split⟩
  · rw [none] at laid ⊢
    exact ⟨"", line, by simp, rfl, blanks_of_laid laid, by simp⟩
  · rw [List.concat_eq_append] at split
    rw [split] at laid ⊢
    obtain ⟨head, tail, chars, place, solid, rest⟩ := laid_split laid
    have blanks := blanks_of_laid rest
    refine ⟨.ofList (head ++ last.token.lexeme.toList), .ofList tail, ?_, ?_, by simpa using blanks, ?_⟩
    · rw [← line.ofList_toList, chars, ← String.ofList_append, List.append_assoc]
    · have stop : columnAfter (before ++ [last]) = last.stop + 1 := by simp [columnAfter]
      rw [utf8ByteSize_eq, String.toList_ofList, utf8Length_append, stop, stop_eq, place]
      omega
    · rw [String.toList_ofList, List.getLast?_append_of_ne_nil _ solid.1]
      exact fun c last => solid.2 c (List.mem_of_getLast? last)

theorem within_of_valid {offset : Nat} (valid : (⟨offset⟩ : String.Pos.Raw).IsValid line) :
    offset ≤ line.utf8ByteSize := valid.le_rawEndPos

theorem valid_of_endsAt {offset : Nat} (ends : EndsAt line offset) :
    (⟨offset⟩ : String.Pos.Raw).IsValid line := by
  obtain ⟨before, after, same, rfl, -⟩ := ends
  exact String.Pos.Raw.isValid_iff_exists_append.mpr ⟨before, after, same, rfl⟩

theorem column_lt_of_split {before after : List Placed} (split : lex line = before ++ t :: after) :
    ∀ s ∈ before, s.column < t.column := by
  intro s member
  have ordered := laid_ordered (lex_laid line)
  rw [split, List.pairwise_append] at ordered
  exact Nat.succ_lt_succ (ordered.2.2 s member t (by simp)).1

theorem openings_before {before after : List Placed} (split : lex line = before ++ t :: after) :
    (tokensOf before).count .openParen ≤
      (lex line).countP fun s => s.token = .openParen ∧ s.column < t.column := by
  have earlier := column_lt_of_split split
  rw [split, List.countP_append, tokensOf, List.count, List.countP_map]
  refine Nat.le_trans (List.countP_mono_left fun s member paren => ?_) (Nat.le_add_right _ _)
  have opening : s.token = .openParen := by simpa using paren
  simp [opening, earlier s member]

theorem pointsInto_token {before after : List Placed} (split : lex line = before ++ t :: after)
    (refused : Refused t fault)
    (full : (∃ limit, fault = .nestedTooDeeply limit) →
      maxDepth ≤ 0 + (tokensOf before).count .openParen) :
    LineError.PointsInto ⟨fault, t.column⟩ line := by
  have member : t ∈ lex line := by simp [split]
  have stands : Stands line t.token.lexeme t.offset := stands_of_mem (lex_laid line) member
  have nonempty : t.token.lexeme ≠ "" := lexeme_nonempty (lex_laid line) member
  have valid := (valid_of_stands stands).1
  constructor
  case bounds => exact ⟨Nat.le_add_left 1 _, Nat.succ_le_succ (within_of_valid valid)⟩
  case boundary => exact valid
  case payload =>
    intro text quoted
    cases refused <;> cases quoted <;> exact ⟨nonempty, stands, t, member, rfl, rfl⟩
  case opening =>
    intro kind
    have paren : t.token = .openParen := by
      cases refused with
      | opening paren | deep limit paren => exact paren
      | _ => simp at kind
    rw [paren] at stands
    exact stands
  case ending =>
    intro kind
    cases refused <;> cases kind
  case unclosed =>
    intro kind
    cases refused with
    | unclosed other => exact .inr ⟨t, member, rfl, other⟩
    | _ => cases kind
  case deep =>
    intro limit kind
    have enough : maxDepth ≤ (tokensOf before).count .openParen := by simpa using full ⟨limit, kind⟩
    exact Nat.le_trans enough (openings_before split)

theorem pointsInto_end (kind : fault = .unexpectedEnd ∨ fault = .missingCloseParen) :
    LineError.PointsInto ⟨fault, columnAfter (lex line)⟩ line := by
  have ends := endsAt_columnAfter line
  have valid := valid_of_endsAt ends
  have positive : 1 ≤ columnAfter (lex line) := by
    unfold columnAfter
    split <;> omega
  have within := within_of_valid valid
  constructor
  case bounds =>
    refine ⟨positive, ?_⟩
    change columnAfter (lex line) ≤ line.utf8ByteSize + 1
    omega
  case boundary => exact valid
  case ending => exact fun _ => ends
  case unclosed => exact fun _ => .inl ends
  all_goals rcases kind with rfl | rfl <;> simp [Fault.payload?]

theorem pointsInto_of_told (told : Told (columnAfter (lex line)) 0 (lex line) error) :
    error.PointsInto line := by
  cases told with
  | token split refused full => exact pointsInto_token split refused full
  | ending kind => exact pointsInto_end kind

/-- Every error of a rejected line points into the line, at what it is told of. -/
theorem runLine_error_pointsInto {s : Store} (rejected : (s.runLine line).result = .error error) :
    error.PointsInto line :=
  pointsInto_of_told (ofTokens_told (ofTokens_of_runLine rejected))

/-- The end of a line comes after its last token; the blanks do not count, and a letter counts its bytes. -/
theorem runLine_error_pointsInto_end :
    (Store.fresh.runLine "aé + \t").result = .error ⟨.unexpectedEnd, 6⟩ ∧
    LineError.PointsInto ⟨.unexpectedEnd, 6⟩ "aé + \t" := by
  have read : Expr.ofTokens (lex "aé + \t") = .error ⟨.unexpectedEnd, 6⟩ := by
    unfold lex
    rw [scan_eq_spell, ofTokens_eq]
    rfl
  have rejected : (Store.fresh.runLine "aé + \t").result = .error ⟨.unexpectedEnd, 6⟩ := by
    rw [runLine_rejected read]
  exact ⟨rejected, runLine_error_pointsInto rejected⟩

/-- In a line whose columns are words all sums are exact, so it is read alike wherever they are not. -/
theorem parse_lex (words : line.utf8ByteSize + 1 < wordSize) :
    Expr.parse .wrapping (lex line) = Expr.ofTokens (lex line) ∧
      Expr.parse .checked (lex line) = (Expr.ofTokens (lex line)).mapError .rejected := by
  constructor
  · rw [parse_wrapping]
    cases read : Expr.ofTokens (lex line) with
    | ok e => rfl
    | error error =>
      have column := (pointsInto_of_told (ofTokens_told read)).bounds.2
      have same : error.column % wordSize = error.column := Nat.mod_eq_of_lt (by omega)
      simp [LineError.wrapped, same]
  · rcases parse_checked (lex line) with same | ⟨-, t, member, beyond⟩
    · exact same
    · have stop := stop_le_of_laid (lex_laid line) t member
      rw [← utf8ByteSize_eq] at stop
      omega

end Calculator
