import Calculator.Expr
import Calculator.Proofs.Line
import Calculator.Proofs.Spelling

/- The tokens of a written tree. Operands that are single words never run into what is written next
   to them, so the line splits into the tokens of the tree. -/
namespace Calculator

def BinaryOp.token : BinaryOp → Token
  | .add => .plus
  | .sub => .minus
  | .mul => .star
  | .div => .slash

def Expr.tokens : Expr → List Token
  | .number x => [.word (String.ofList (writeNumber x))]
  | .name text => [.word text]
  | .negation e => .minus :: e.tokens
  | .binary op l r => .openParen :: (l.tokens ++ op.token :: (r.tokens ++ [.closeParen]))
  | .assignment target e => .word target :: .equals :: e.tokens

def Expr.Operands (P : Expr → Prop) : Expr → Prop
  | .number x => P (.number x)
  | .name text => P (.name text)
  | .negation e => e.Operands P
  | .binary _ l r => l.Operands P ∧ r.Operands P
  | .assignment _ _ => False

def Expr.Spelled (e : Expr) : Prop := e.Operands fun operand => IsWord operand.text

theorem symbol_token (op : BinaryOp) : symbol? op.symbol = some op.token := by
  cases op <;> rfl

theorem operator_token (op : BinaryOp) : op.token.operator? = some op := by
  cases op <;> rfl

theorem number_text (x : Float) : (Expr.number x).text = String.ofList (writeNumber x) := by
  simp [Expr.text, Expr.writeOnto]

theorem name_text (text : String) : (Expr.name text).text = text := by
  simp [Expr.text, Expr.writeOnto]

theorem tokensOf_spell (offset other : Nat) (w cs : List Char) :
    tokensOf (spell offset w cs) = tokensOf (spell other w cs) := by
  have before (w : List Char) (offset other : Nat) :
      tokensOf (wordBefore offset w) = tokensOf (wordBefore other w) := by
    cases w <;> rfl
  induction cs generalizing offset other w with
  | nil => exact before w offset other
  | cons c cs ih =>
    simp only [spell_cons]
    split
    · simp only [tokensOf, List.map_append]
      exact congrArg₂ _ (before w _ _) (ih _ _ _)
    · split
      · exact ih _ _ _
      · split
        · exact ih _ _ _
        · simp only [tokensOf, List.map_append, List.map_cons]
          exact congrArg₂ _ (before w _ _) (congrArg _ (ih _ _ _))

def tokensIn (cs : List Char) : List Token := tokensOf (spell 0 [] cs)

theorem tokensOf_lex (line : String) : tokensOf (lex line) = tokensIn line.toList := by
  rw [lex, scan_start, tokensIn]

theorem tokensIn_word {w rest : List Char} (word : IsWordText w) (parted : Parted w rest) :
    tokensIn (w ++ rest) = .word (String.ofList w) :: tokensIn rest := by
  rw [tokensIn, spell_word word parted]
  exact congrArg _ (tokensOf_spell _ _ _ _)

theorem tokensIn_symbol {c : Char} {t : Token} (one : symbol? c = some t) (rest : List Char) :
    tokensIn (c :: rest) = t :: tokensIn rest := by
  rw [tokensIn, spell_symbol one]
  exact congrArg _ (tokensOf_spell _ _ _ _)

theorem tokensIn_blank (rest : List Char) : tokensIn (' ' :: rest) = tokensIn rest := by
  have skip : spell 0 [] ([' '] ++ rest) = spell (0 + utf8Length [' ']) [] rest :=
    spell_blanks (by simp [isBlank]) 0 rest
  rw [List.singleton_append] at skip
  rw [tokensIn, skip]
  exact tokensOf_spell _ _ _ _

theorem parted_closeParen (w rest : List Char) : Parted w (')' :: rest) := by
  intro c first
  obtain rfl := Option.some.inj first
  exact ⟨rfl, by simp⟩

theorem tokensIn_writeOnto {e : Expr} (spelled : e.Spelled) {rest : List Char}
    (apart : ∀ w, Parted w rest) : tokensIn (e.writeOnto rest) = e.tokens ++ tokensIn rest := by
  induction e generalizing rest with
  | number x =>
    have word := isWord_iff.mp (number_text x ▸ spelled : IsWord (String.ofList (writeNumber x)))
    rw [String.toList_ofList] at word
    exact tokensIn_word word (apart _)
  | name text =>
    have word := isWord_iff.mp (name_text text ▸ spelled : IsWord text)
    rw [Expr.writeOnto, tokensIn_word word (apart _), String.ofList_toList]
    rfl
  | negation e ih =>
    rw [Expr.writeOnto, tokensIn_symbol rfl, ih spelled apart]
    rfl
  | binary op l r ihl ihr =>
    rw [Expr.writeOnto, tokensIn_symbol rfl, ihl spelled.1 fun w => parted_blank rfl w _,
      tokensIn_blank, tokensIn_symbol (symbol_token op), tokensIn_blank,
      ihr spelled.2 fun w => parted_closeParen w _, tokensIn_symbol rfl]
    simp [Expr.tokens]
  | assignment target e ih => cases spelled

theorem tokensOf_lex_text {e : Expr} (spelled : e.Spelled) : tokensOf (lex e.text) = e.tokens := by
  rw [tokensOf_lex, Expr.text, String.toList_ofList, tokensIn_writeOnto spelled parted_end]
  exact List.append_nil _

theorem tokensOf_lex_assignment {target : String} {e : Expr} (word : IsWord target)
    (spelled : e.Spelled) :
    tokensOf (lex (Expr.assignment target e).text) = (Expr.assignment target e).tokens := by
  rw [tokensOf_lex, Expr.text, String.toList_ofList, Expr.writeOnto,
    tokensIn_word (isWord_iff.mp word) (parted_blank rfl _ _), tokensIn_blank, tokensIn_symbol rfl,
    tokensIn_blank, tokensIn_writeOnto spelled parted_end, String.ofList_toList]
  simp [Expr.tokens, tokensIn, spell, wordBefore, tokensOf]

end Calculator
