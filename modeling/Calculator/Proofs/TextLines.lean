import Calculator.TextLines

/- Lines of texts and of their bytes. The bytes of a text split into the bytes of its lines, since the
   byte of a newline or of a carriage return is part of no other character. -/
namespace Calculator

def utf8 (cs : List Char) : List UInt8 := cs.flatMap String.utf8EncodeChar

def IsUtf8 (bytes : List UInt8) : Prop := bytes.toByteArray.IsValidUTF8

@[simp]
theorem utf8_nil : utf8 [] = [] := rfl

theorem utf8_append (first rest : List Char) : utf8 (first ++ rest) = utf8 first ++ utf8 rest :=
  List.flatMap_append

theorem utf8_single (c : Char) : utf8 [c] = String.utf8EncodeChar c := List.append_nil _

theorem utf8_cons (c : Char) (cs : List Char) :
    utf8 (c :: cs) = String.utf8EncodeChar c ++ utf8 cs := List.flatMap_cons

theorem utf8_eq_nil_iff {cs : List Char} : utf8 cs = [] ↔ cs = [] := by
  cases cs <;> simp [utf8_cons, String.utf8EncodeChar_ne_nil]

theorem toByteArray_utf8 (text : String) : (utf8 text.toList).toByteArray = text.toUTF8 := by
  change text.toList.utf8Encode = text.toByteArray
  exact String.utf8Encode_toList

theorem fromUTF8_eq_some_iff {bytes : List UInt8} {text : String} :
    String.fromUTF8? bytes.toByteArray = some text ↔ bytes = utf8 text.toList := by
  rw [← List.toByteArray_inj, toByteArray_utf8]
  unfold String.fromUTF8?
  constructor
  · intro read
    split at read
    · obtain rfl := Option.some.inj read
      rfl
    · cases read
  · intro same
    have valid : bytes.toByteArray.IsValidUTF8 := same ▸ text.isValidUTF8
    rw [dif_pos valid]
    simp [String.fromUTF8, same]

theorem fromUTF8_utf8 (text : String) :
    String.fromUTF8? (utf8 text.toList).toByteArray = some text :=
  fromUTF8_eq_some_iff.mpr rfl

theorem fromUTF8_eq_none_iff {bytes : List UInt8} :
    String.fromUTF8? bytes.toByteArray = none ↔ ¬ IsUtf8 bytes := by
  unfold String.fromUTF8? IsUtf8
  split <;> simp_all

theorem encode_of_ascii {c : Char} {b : UInt8} (member : b ∈ String.utf8EncodeChar c)
    (ascii : b.toNat < 128) : String.utf8EncodeChar c = [b] ∧ c.toNat = b.toNat := by
  have size (n : Nat) : (UInt8.ofNat n).toNat = n % 256 := by simp
  unfold String.utf8EncodeChar at member ⊢
  simp only at member ⊢
  split at member
  · rename_i short
    obtain rfl := List.mem_singleton.mp member
    have whole : c.val.toNat % 256 = c.toNat := Nat.mod_eq_of_lt (Nat.lt_of_le_of_lt short (by decide))
    rw [if_pos short, size, whole]
    exact ⟨rfl, rfl⟩
  · have high : 128 ≤ b.toNat := by
      split at member
      · simp only [List.mem_cons, List.not_mem_nil, or_false] at member
        rcases member with rfl | rfl <;> rw [size] <;> omega
      · split at member
        · simp only [List.mem_cons, List.not_mem_nil, or_false] at member
          rcases member with rfl | rfl | rfl <;> rw [size] <;> omega
        · simp only [List.mem_cons, List.not_mem_nil, or_false] at member
          rcases member with rfl | rfl | rfl | rfl <;> rw [size] <;> omega
    omega

theorem newline_mem_iff {c : Char} : 10 ∈ String.utf8EncodeChar c ↔ c = '\n' := by
  constructor
  · intro member
    exact Char.toNat_inj.mp (encode_of_ascii member (by decide)).2
  · intro same
    subst same
    decide

theorem return_mem_iff {c : Char} : 13 ∈ String.utf8EncodeChar c ↔ c = '\r' := by
  constructor
  · intro member
    exact Char.toNat_inj.mp (encode_of_ascii member (by decide)).2
  · intro same
    subst same
    decide

section
variable {α : Type} [DecidableEq α] {newline : α}

theorem splitFrom_run {run : List α} (clean : newline ∉ run) (ret : α) (part rest : List α) :
    splitFrom newline ret part (run ++ rest) = splitFrom newline ret (run.reverse ++ part) rest := by
  induction run generalizing part with
  | nil => rfl
  | cons x run ih =>
    have other : x ≠ newline := by
      intro same
      exact clean (by simp [same])
    have tail : newline ∉ run := fun member => clean (List.mem_cons_of_mem x member)
    simp [splitFrom, other, ih tail]

theorem splitFrom_end (ret : α) (part : List α) :
    splitFrom newline ret part [] = if part = [] then [] else [part.reverse] := by
  cases part <;> simp [splitFrom]

theorem endedLine_reverse (ret : α) (line : List α) :
    line = endedLine ret line.reverse ∨ line = endedLine ret line.reverse ++ [ret] := by
  rcases List.eq_nil_or_concat line with empty | ⟨before, x, split⟩
  · simp [empty, endedLine]
  · by_cases same : x = ret <;> simp [split, endedLine, same]

end

theorem endedLine_utf8 (part : List Char) :
    endedLine 13 (utf8 part.reverse).reverse = utf8 (endedLine '\r' part) := by
  cases part with
  | nil => rfl
  | cons c before =>
    rw [List.reverse_cons, utf8_append, utf8_single, List.reverse_append]
    by_cases same : c = '\r'
    · subst same
      simp [endedLine, show String.utf8EncodeChar '\r' = [13] by decide]
    · obtain ⟨first, last, code⟩ := List.eq_nil_or_concat (String.utf8EncodeChar c) |>.resolve_left
        String.utf8EncodeChar_ne_nil
      have other : last ≠ 13 := by
        intro ret
        exact same (return_mem_iff.mp (by simp [code, ret]))
      simp [endedLine, same, code, other, utf8_append, utf8_single]

theorem splitFrom_utf8 (part cs : List Char) :
    splitFrom 10 13 (utf8 part.reverse).reverse (utf8 cs) = (splitFrom '\n' '\r' part cs).map utf8 := by
  induction cs generalizing part with
  | nil =>
    rw [utf8_nil, splitFrom_end, splitFrom_end]
    by_cases none : part = [] <;> simp [utf8_eq_nil_iff, none]
  | cons c cs ih =>
    by_cases same : c = '\n'
    · subst same
      have fresh := ih []
      rw [utf8_cons, show String.utf8EncodeChar '\n' = [10] by decide]
      simp only [List.reverse_nil, List.singleton_append, splitFrom, ↓reduceIte, List.map_cons,
        endedLine_utf8] at fresh ⊢
      exact congrArg _ fresh
    · have clean : 10 ∉ String.utf8EncodeChar c := fun member => same (newline_mem_iff.mp member)
      have longer := ih (c :: part)
      rw [List.reverse_cons, utf8_append, utf8_single, List.reverse_append] at longer
      rw [utf8_cons, splitFrom_run clean, longer]
      simp [splitFrom, same]

theorem byteLines_utf8 (cs : List Char) : byteLines (utf8 cs) = (textLines cs).map utf8 :=
  splitFrom_utf8 [] cs

theorem isUtf8_append {first rest : List UInt8} (left : IsUtf8 first) (right : IsUtf8 rest) :
    IsUtf8 (first ++ rest) := by
  unfold IsUtf8
  rw [List.toByteArray_append]
  exact left.append right

theorem isUtf8_utf8 (cs : List Char) : IsUtf8 (utf8 cs) := .intro cs rfl

theorem isUtf8_of_lines (part : List UInt8) {bytes : List UInt8}
    (valid : ∀ line ∈ splitFrom 10 13 part bytes, IsUtf8 line) : IsUtf8 (part.reverse ++ bytes) := by
  induction bytes generalizing part with
  | nil =>
    rw [splitFrom_end] at valid
    by_cases empty : part = []
    · subst empty
      exact isUtf8_utf8 []
    · simpa [empty] using valid
  | cons b bytes ih =>
    by_cases newline : b = 10
    · subst newline
      simp only [splitFrom, ↓reduceIte, List.mem_cons, forall_eq_or_imp] at valid
      have rest : IsUtf8 bytes := ih [] valid.2
      have line : IsUtf8 part.reverse := by
        rcases endedLine_reverse 13 part.reverse with same | same
        · rw [List.reverse_reverse] at same
          exact same ▸ valid.1
        · rw [List.reverse_reverse] at same
          exact same ▸ isUtf8_append valid.1 (isUtf8_utf8 ['\r'])
      exact isUtf8_append line (isUtf8_append (isUtf8_utf8 ['\n']) rest)
    · simp only [splitFrom, newline, ↓reduceIte] at valid
      simpa using ih (b :: part) valid

theorem first_not_utf8 {lines : List (List UInt8)} (bad : ¬ ∀ line ∈ lines, IsUtf8 line) :
    ∃ (before : List String) (line : List UInt8) (after : List (List UInt8)),
      lines = before.map (fun text => utf8 text.toList) ++ line :: after ∧ ¬ IsUtf8 line := by
  induction lines with
  | nil => exact absurd (by simp) bad
  | cons line rest ih =>
    by_cases valid : IsUtf8 line
    · obtain ⟨before, other, after, split, worse⟩ := ih fun all =>
        bad (List.forall_mem_cons.mpr ⟨valid, all⟩)
      obtain ⟨cs, code⟩ := valid
      refine ⟨String.ofList cs :: before, other, after, ?_, worse⟩
      simp [split, List.toByteArray_inj.mp code, utf8]
    · exact ⟨[], line, rest, rfl, valid⟩

end Calculator
