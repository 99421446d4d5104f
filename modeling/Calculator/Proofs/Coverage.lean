import Calculator.Proofs.Layout
import Calculator.Proofs.TextLines

/- What the tokens of a line cover, which is all of it but the blanks: each token has the text of the
   line at its place, and no part of a line is without a match. -/
namespace Calculator

/-- A text is found in a line at an offset; it begins and ends between characters. -/
def Stands (line text : String) (offset : Nat) : Prop :=
  ∃ before after, line = before ++ text ++ after ∧ before.utf8ByteSize = offset

def IsBlankByte (b : UInt8) : Prop := ∃ c, isBlank c = true ∧ String.utf8EncodeChar c = [b]

def Stuck (cs : List Char) : Prop := cs ≠ [] ∧ ∀ p : Pattern, p.reach cs = 0

/-- The tokens are the texts at their places, one after the other, and outside them there are blanks. -/
structure Covers (ts : List Placed) (line : String) : Prop where
  ordered : ts.Pairwise fun a b => a.offset < b.offset ∧ a.stop ≤ b.offset
  nonempty : ∀ t ∈ ts, t.token.lexeme ≠ ""
  boundaries : ∀ t ∈ ts, (⟨t.offset⟩ : String.Pos.Raw).IsValid line ∧
    (⟨t.stop⟩ : String.Pos.Raw).IsValid line
  bytes : ∀ t ∈ ts, line.toUTF8.extract t.offset t.stop = t.token.lexeme.toUTF8
  between : ∀ i, ∀ inside : i < line.toUTF8.size, (∀ t ∈ ts, i < t.offset ∨ t.stop ≤ i) →
    IsBlankByte line.toUTF8[i]
  joined : String.join (ts.map fun t => t.token.lexeme) =
    String.ofList (line.toList.filter fun c => !isBlank c)
  visible : ∀ t ∈ ts, t.token ≠ .blank

variable {offset : Nat} {cs : List Char} {ts : List Placed} {line text : String}

theorem utf8_length (cs : List Char) : (utf8 cs).length = utf8Length cs := by
  induction cs with
  | nil => rfl
  | cons c cs ih => rw [utf8_cons, List.length_append, String.length_utf8EncodeChar, ih, utf8Length_cons]

theorem byte_of_line (line : String) :
    ∀ i, ∀ inside : i < line.toUTF8.size, (utf8 line.toList)[i]? = some line.toUTF8[i] := by
  rw [← toByteArray_utf8]
  intro i inside
  rw [List.getElem_toByteArray]
  exact List.getElem?_eq_getElem _

theorem blanks_of_laid (laid : Laid offset cs []) : ∀ c ∈ cs, isBlank c = true := by
  cases laid with
  | nil blanks => exact blanks

theorem laid_split {before after : List Placed} {t : Placed}
    (laid : Laid offset cs (before ++ t :: after)) :
    ∃ head tail, cs = head ++ (t.token.lexeme.toList ++ tail) ∧
      t.offset = offset + utf8Length head ∧ t.token.Solid ∧ Laid t.stop tail after := by
  induction before generalizing offset cs with
  | nil =>
    cases laid with
    | cons blanks place solid tail => exact ⟨_, _, rfl, place, solid, tail⟩
  | cons first before ih =>
    cases laid with
    | cons blanks place solid tail =>
      rename_i gap rest
      obtain ⟨head, after, rfl, there, mark, further⟩ := ih tail
      refine ⟨gap ++ (first.token.lexeme.toList ++ head), after, by simp, ?_, mark, further⟩
      rw [there, stop_eq, place]
      simp [Nat.add_assoc]

theorem lexeme_nonempty {t : Placed} (laid : Laid offset cs ts) (member : t ∈ ts) :
    t.token.lexeme ≠ "" :=
  mt String.toList_eq_nil_iff.mpr (laid_solid laid t member).1

theorem stands_of_mem {t : Placed} (laid : Laid 0 line.toList ts) (member : t ∈ ts) :
    Stands line t.token.lexeme t.offset := by
  obtain ⟨before, after, rfl⟩ := List.append_of_mem member
  obtain ⟨head, tail, chars, place, -⟩ := laid_split laid
  refine ⟨.ofList head, .ofList tail, ?_, ?_⟩
  · rw [← line.ofList_toList, chars]
    simp [String.ofList_append, String.append_assoc]
  · rw [utf8ByteSize_eq, String.toList_ofList, place, Nat.zero_add]

theorem valid_of_stands (stands : Stands line text offset) :
    (⟨offset⟩ : String.Pos.Raw).IsValid line ∧
      (⟨offset + text.utf8ByteSize⟩ : String.Pos.Raw).IsValid line := by
  obtain ⟨before, after, rfl, rfl⟩ := stands
  constructor
  · refine String.Pos.Raw.isValid_iff_exists_append.mpr ⟨before, text ++ after, ?_, rfl⟩
    rw [String.append_assoc]
  · refine String.Pos.Raw.isValid_iff_exists_append.mpr ⟨before ++ text, after, rfl, ?_⟩
    rw [String.rawEndPos, String.utf8ByteSize_append]

theorem extract_of_stands (stands : Stands line text offset) :
    line.toUTF8.extract offset (offset + text.utf8ByteSize) = text.toUTF8 := by
  obtain ⟨before, after, rfl, rfl⟩ := stands
  have first : before.toByteArray.extract before.utf8ByteSize
      (before.utf8ByteSize + text.utf8ByteSize) = .empty := by
    rw [ByteArray.extract_eq_empty_iff, String.size_toByteArray]
    omega
  have whole : text.toByteArray.extract 0 text.utf8ByteSize = text.toByteArray := by
    rw [← String.size_toByteArray, ByteArray.extract_zero_size]
  change (before ++ text ++ after).toByteArray.extract _ _ = text.toByteArray
  rw [String.append_assoc, String.toByteArray_append, String.toByteArray_append]
  simp [ByteArray.extract_append, String.size_toByteArray, first, whole]

theorem encode_blank {c : Char} (blank : isBlank c = true) : ∃ b, String.utf8EncodeChar c = [b] := by
  simp only [isBlank, Bool.or_eq_true, beq_iff_eq] at blank
  rcases blank with (((rfl | rfl) | rfl) | rfl) | rfl <;> exact ⟨_, rfl⟩

theorem isBlankByte_of_mem {gap : List Char} (blanks : ∀ c ∈ gap, isBlank c = true) {b : UInt8}
    (member : b ∈ utf8 gap) : IsBlankByte b := by
  obtain ⟨c, char, code⟩ := List.mem_flatMap.mp member
  obtain ⟨only, single⟩ := encode_blank (blanks c char)
  rw [single, List.mem_singleton] at code
  exact ⟨c, blanks c char, code ▸ single⟩

theorem byte_between (laid : Laid offset cs ts) {i : Nat} {b : UInt8} (byte : (utf8 cs)[i]? = some b)
    (apart : ∀ t ∈ ts, offset + i < t.offset ∨ t.stop ≤ offset + i) : IsBlankByte b := by
  induction laid generalizing i with
  | nil blanks => exact isBlankByte_of_mem blanks (List.mem_of_getElem? byte)
  | cons blanks place solid tail ih =>
    rename_i offset gap rest t ts
    have own := apart t (by simp)
    have stop := stop_eq t
    rw [utf8_append, utf8_append, List.getElem?_append] at byte
    split at byte
    · exact isBlankByte_of_mem blanks (List.mem_of_getElem? byte)
    · rename_i past
      rw [List.getElem?_append] at byte
      rw [utf8_length] at past byte
      rw [utf8_length] at byte
      split at byte
      · omega
      · rename_i after
        apply ih byte
        intro other member
        have := apart other (by simp [member])
        omega

theorem joined_of_laid (laid : Laid offset cs ts) :
    (ts.flatMap fun t => t.token.lexeme.toList) = cs.filter fun c => !isBlank c := by
  induction laid with
  | nil blanks => simpa using blanks
  | cons blanks place solid tail ih =>
    rename_i gap rest t ts
    have none : gap.filter (fun c => !isBlank c) = [] := by simpa using blanks
    have all : t.token.lexeme.toList.filter (fun c => !isBlank c) = t.token.lexeme.toList := by
      simpa using solid.2
    rw [List.flatMap_cons, ih, List.filter_append, List.filter_append, none, all, List.nil_append]

theorem not_stuck (cs : List Char) : ¬ Stuck cs := by
  intro stuck
  obtain ⟨c, rest, rfl⟩ := List.exists_cons_of_ne_nil stuck.1
  have := longest_reach_pos c rest
  rw [stuck.2] at this
  omega

/-- Splitting a line loses nothing but the blanks, and it never stops where nothing matches. -/
theorem lex_covers (line : String) :
    Covers (lex line) line ∧ ∀ rest, rest <:+ line.toList → ¬ Stuck rest := by
  have laid := lex_laid line
  refine ⟨?_, fun rest _ => not_stuck rest⟩
  constructor
  case ordered => exact laid_ordered laid
  case nonempty => exact fun t member => lexeme_nonempty laid member
  case boundaries => exact fun t member => valid_of_stands (stands_of_mem laid member)
  case bytes => exact fun t member => extract_of_stands (stands_of_mem laid member)
  case between =>
    intro i inside apart
    exact byte_between laid (byte_of_line line i inside) (by simpa using apart)
  case joined =>
    rw [← joined_of_laid laid, ← String.toList_inj]
    simp [List.flatMap_map]
  case visible =>
    intro t member blank
    apply lexeme_nonempty laid member
    rw [blank]
    rfl

end Calculator
