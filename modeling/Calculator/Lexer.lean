import Calculator.Token

/- Splitting a line into tokens: at each place the longest match of four patterns.
   A word is a run of word characters; digits, `e` and `-` may also begin one, as in `12e-3`. -/
namespace Calculator

def isBlank (c : Char) : Bool :=
  c == ' ' || c == '\t' || c == '\n' || c == '\r' || c == '\x0c'

def symbol? : Char → Option Token
  | '+' => some .plus
  | '-' => some .minus
  | '*' => some .star
  | '/' => some .slash
  | '=' => some .equals
  | '(' => some .openParen
  | ')' => some .closeParen
  | _ => none

def isWordChar (c : Char) : Bool := !isBlank c && (symbol? c).isNone

inductive Pattern where
  | blanks
  | symbol
  | plainWord
  | exponentWord
  deriving DecidableEq, Repr

/-- The length of a pattern's longest match at the head of a text, 0 where it does not match. -/
def Pattern.reach : Pattern → List Char → Nat
  | .blanks, cs => (cs.takeWhile isBlank).length
  | .symbol, [] => 0
  | .symbol, c :: _ => if (symbol? c).isSome then 1 else 0
  | .plainWord, cs => (cs.takeWhile isWordChar).length
  | .exponentWord, cs =>
    match cs.dropWhile Char.isDigit with
    | 'e' :: '-' :: rest =>
      (cs.takeWhile Char.isDigit).length + 2 + (rest.takeWhile isWordChar).length
    | _ => 0

def Pattern.token? : Pattern → List Char → Option Token
  | .blanks, _ => none
  | .symbol, cs => cs.head?.bind symbol?
  | .plainWord, cs | .exponentWord, cs => some (.word (String.ofList cs))

/-- The pattern with the longer match; the first one where both are equally long. -/
def longer (cs : List Char) (a b : Pattern) : Pattern :=
  if a.reach cs < b.reach cs then b else a

def longest (cs : List Char) : Pattern :=
  [Pattern.symbol, .plainWord, .exponentWord].foldl (longer cs) .blanks

theorem reach_le_longer (cs : List Char) (a b : Pattern) :
    a.reach cs ≤ (longer cs a b).reach cs ∧ b.reach cs ≤ (longer cs a b).reach cs := by
  unfold longer
  split <;> omega

theorem reach_le_longest (p : Pattern) (cs : List Char) : p.reach cs ≤ (longest cs).reach cs := by
  have blanks := reach_le_longer cs .blanks .symbol
  have plain := reach_le_longer cs (longer cs .blanks .symbol) .plainWord
  have word := reach_le_longer cs (longer cs (longer cs .blanks .symbol) .plainWord) .exponentWord
  simp only [longest, List.foldl_cons, List.foldl_nil]
  cases p <;> omega

theorem longest_reach_pos (c : Char) (cs : List Char) : 0 < (longest (c :: cs)).reach (c :: cs) := by
  by_cases blank : isBlank c
  · refine Nat.lt_of_lt_of_le ?_ (reach_le_longest .blanks _)
    simp [Pattern.reach, blank]
  · by_cases one : (symbol? c).isSome
    · refine Nat.lt_of_lt_of_le ?_ (reach_le_longest .symbol _)
      simp [Pattern.reach, one]
    · refine Nat.lt_of_lt_of_le ?_ (reach_le_longest .plainWord _)
      simp_all [Pattern.reach, isWordChar]

def utf8Length (cs : List Char) : Nat := cs.foldr (fun c n => c.utf8Size + n) 0

def record (offset : Nat) (read : List Placed) : Option Token → List Placed
  | none => read
  | some token => ⟨token, offset⟩ :: read

/-- Scans the text that stands at an offset; `read` holds the tokens before it, the last one first. -/
def scan (offset : Nat) (read : List Placed) : List Char → List Placed
  | [] => read.reverse
  | c :: cs =>
    let found := longest (c :: cs)
    let text := (c :: cs).take (found.reach (c :: cs))
    scan (offset + utf8Length text) (record offset read (found.token? text))
      ((c :: cs).drop (found.reach (c :: cs)))
termination_by cs => cs.length
decreasing_by
  have := longest_reach_pos c cs
  simp
  omega

@[simp]
theorem utf8Length_nil : utf8Length [] = 0 := rfl

@[simp]
theorem utf8Length_cons (c : Char) (cs : List Char) :
    utf8Length (c :: cs) = c.utf8Size + utf8Length cs := rfl

@[simp]
theorem utf8Length_append (first rest : List Char) :
    utf8Length (first ++ rest) = utf8Length first + utf8Length rest := by
  induction first with
  | nil => simp
  | cons c first ih => simp [ih, Nat.add_assoc]

def lex (line : String) : List Placed := scan 0 [] line.toList

end Calculator
