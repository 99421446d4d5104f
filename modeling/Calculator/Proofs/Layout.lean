import Calculator.Proofs.Spelling

/- How tokens lie in their line. Each token stands at its offset with its own text, which has no blank
   in it, and nothing but blanks lies before, between and after the tokens. -/
namespace Calculator

def Token.Solid (t : Token) : Prop :=
  t.lexeme.toList ≠ [] ∧ ∀ c ∈ t.lexeme.toList, isBlank c = false

/-- A text that begins at an offset, with the tokens that lie in it. -/
inductive Laid : Nat → List Char → List Placed → Prop where
  | nil {offset : Nat} {gap : List Char} (blanks : ∀ c ∈ gap, isBlank c = true) : Laid offset gap []
  | cons {offset : Nat} {gap rest : List Char} {t : Placed} {ts : List Placed}
      (blanks : ∀ c ∈ gap, isBlank c = true) (place : t.offset = offset + utf8Length gap)
      (solid : t.token.Solid) (tail : Laid t.stop rest ts) :
      Laid offset (gap ++ (t.token.lexeme.toList ++ rest)) (t :: ts)

variable {offset : Nat} {cs : List Char} {ts : List Placed}

theorem utf8ByteSize_eq (s : String) : s.utf8ByteSize = utf8Length s.toList := by
  have chars (cs : List Char) : (String.ofList cs).utf8ByteSize = utf8Length cs := by
    induction cs with
    | nil => simp
    | cons c cs ih => simp [String.ofList_cons, ih]
  rw [← chars, String.ofList_toList]

theorem stop_eq (t : Placed) : t.stop = t.offset + utf8Length t.token.lexeme.toList := by
  rw [Placed.stop, utf8ByteSize_eq]

theorem laid_blank {c : Char} (blank : isBlank c = true) (laid : Laid (offset + c.utf8Size) cs ts) :
    Laid offset (c :: cs) ts := by
  cases laid with
  | nil blanks => exact .nil (by simpa [blank] using blanks)
  | cons blanks place solid tail =>
    rename_i gap rest t ts
    have wider : ∀ x ∈ c :: gap, isBlank x = true := by simpa [blank] using blanks
    exact .cons wider (by rw [place, utf8Length_cons, Nat.add_assoc]) solid tail

theorem laid_token {t : Token} {text : List Char} (spelled : t.lexeme.toList = text)
    (some : text ≠ []) (solid : ∀ c ∈ text, isBlank c = false)
    (laid : Laid (offset + utf8Length text) cs ts) : Laid offset (text ++ cs) (⟨t, offset⟩ :: ts) := by
  subst spelled
  have none : ∀ c ∈ ([] : List Char), isBlank c = true := by simp
  rw [← stop_eq ⟨t, offset⟩] at laid
  exact @Laid.cons offset [] cs ⟨t, offset⟩ ts none rfl ⟨some, solid⟩ laid

theorem laid_wordBefore {w : List Char} (solid : ∀ c ∈ w, isBlank c = false)
    (laid : Laid (offset + utf8Length w) cs ts) :
    Laid offset (w ++ cs) (wordBefore (offset + utf8Length w) w ++ ts) := by
  cases w with
  | nil => exact laid
  | cons c w =>
    rw [wordBefore_some (by simp)]
    exact laid_token String.toList_ofList (by simp) solid laid

theorem symbol_lexeme {c : Char} {t : Token} (one : symbol? c = some t) : t.lexeme.toList = [c] := by
  unfold symbol? at one
  split at one <;> cases one <;> simp [Token.lexeme]

theorem laid_symbol {c : Char} {t : Token} (one : symbol? c = some t)
    (laid : Laid (offset + c.utf8Size) cs ts) : Laid offset (c :: cs) (⟨t, offset⟩ :: ts) :=
  laid_token (symbol_lexeme one) (by simp) (by simp [not_blank_of_symbol one]) laid

theorem spell_laid {w : List Char} (solid : ∀ c ∈ w, isBlank c = false) (offset : Nat)
    (cs : List Char) : Laid offset (w ++ cs) (spell (offset + utf8Length w) w cs) := by
  induction cs generalizing w offset with
  | nil =>
    have last : Laid (offset + utf8Length w) [] [] := .nil (by simp)
    simpa [spell] using laid_wordBefore solid last
  | cons c cs ih =>
    have none : ∀ c ∈ ([] : List Char), isBlank c = false := by simp
    have rest (start : Nat) : Laid start cs (spell start [] cs) := ih none start
    have longer (mark : isBlank c = false) :
        Laid offset (w ++ c :: cs) (spell (offset + utf8Length w + c.utf8Size) (w ++ [c]) cs) := by
      have further : ∀ x ∈ w ++ [c], isBlank x = false := by
        intro x member
        rcases List.mem_append.mp member with old | new
        · exact solid x old
        · rwa [List.mem_singleton.mp new]
      simpa [Nat.add_assoc] using ih further offset
    rw [spell_cons]
    split
    · rename_i blank
      exact laid_wordBefore solid (laid_blank blank (rest _))
    · rename_i mark
      split
      · exact longer (by simpa using mark)
      · rename_i t one
        split
        · exact longer (by simpa using mark)
        · exact laid_wordBefore solid (laid_symbol one (rest _))

theorem lex_laid (line : String) : Laid 0 line.toList (lex line) := by
  rw [lex, scan_start]
  have none : ∀ c ∈ ([] : List Char), isBlank c = false := by simp
  exact spell_laid none 0 line.toList

theorem offset_lt_stop {t : Placed} (solid : t.token.Solid) : t.offset < t.stop := by
  rw [stop_eq]
  obtain ⟨c, w, text⟩ := List.exists_cons_of_ne_nil solid.1
  have := c.utf8Size_pos
  rw [text, utf8Length_cons]
  omega

theorem laid_solid (laid : Laid offset cs ts) : ∀ t ∈ ts, t.token.Solid := by
  induction laid with
  | nil blanks => simp
  | cons blanks place solid tail ih => simpa [solid] using ih

theorem offset_le_of_laid (laid : Laid offset cs ts) : ∀ t ∈ ts, offset ≤ t.offset := by
  induction laid with
  | nil blanks => simp
  | cons blanks place solid tail ih =>
    intro t member
    have inside := offset_lt_stop solid
    rcases List.mem_cons.mp member with same | later
    · subst same
      omega
    · have := ih t later
      omega

theorem stop_le_of_laid (laid : Laid offset cs ts) : ∀ t ∈ ts, t.stop ≤ offset + utf8Length cs := by
  induction laid with
  | nil blanks => simp
  | cons blanks place solid tail ih =>
    rename_i offset gap rest t ts
    rw [utf8Length_append, utf8Length_append]
    rw [stop_eq, place] at ih
    intro other member
    rcases List.mem_cons.mp member with rfl | later
    · rw [stop_eq, place]
      omega
    · have := ih other later
      omega

theorem laid_pairwise (laid : Laid offset cs ts) : ts.Pairwise fun a b => a.stop ≤ b.offset := by
  induction laid with
  | nil blanks => exact .nil
  | cons blanks place solid tail ih => exact .cons (offset_le_of_laid tail) ih

theorem laid_ordered (laid : Laid offset cs ts) :
    ts.Pairwise fun a b => a.offset < b.offset ∧ a.stop ≤ b.offset := by
  apply (laid_pairwise laid).imp_of_mem
  intro a b left right apart
  exact ⟨Nat.lt_of_lt_of_le (offset_lt_stop (laid_solid laid a left)) apart, apart⟩

theorem column_lt_columnAfter (laid : Laid offset cs ts) :
    ∀ t ∈ ts, t.column < columnAfter ts := by
  intro t member
  have inside := offset_lt_stop (laid_solid laid t member)
  have order := laid_pairwise laid
  rcases List.eq_nil_or_concat ts with empty | ⟨before, last, split⟩
  · simp [empty] at member
  · rw [List.concat_eq_append] at split
    subst split
    rw [List.pairwise_append] at order
    have stop : columnAfter (before ++ [last]) = last.stop + 1 := by simp [columnAfter]
    unfold Placed.column
    rcases List.mem_append.mp member with early | late
    · have := order.2.2 t early last (by simp)
      have := offset_lt_stop (laid_solid laid last (by simp))
      omega
    · rw [List.mem_singleton.mp late] at inside ⊢
      omega

theorem index_of_column (laid : Laid offset cs ts) {i j : Nat} {a b : Placed} (first : ts[i]? = some a)
    (second : ts[j]? = some b) (same : a.column = b.column) : i = j := by
  have distinct : (ts.map Placed.column).Nodup := by
    rw [List.Nodup, List.pairwise_map]
    apply (laid_ordered laid).imp
    intro a b order
    exact Nat.ne_of_lt (Nat.succ_lt_succ order.1)
  have bound : i < (ts.map Placed.column).length := by
    rw [List.length_map]
    exact (List.getElem?_eq_some_iff.mp first).1
  apply (List.getElem?_inj bound distinct).mp
  simp [first, second, same]

end Calculator
