import Calculator.Lexer

/- Splitting a line into tokens character by character, without looking ahead. A minus sign goes on
   with the word read so far if that is digits and a single `e`. -/
namespace Calculator

def gaps : List Char := [' ', '\t', '\n', '\r', '\x0c']

def marks : List (Char × Token) :=
  [('+', .plus), ('-', .minus), ('*', .star), ('/', .slash), ('=', .equals), ('(', .openParen),
    (')', .closeParen)]

def takesMinus (word : List Char) : Bool := word.dropWhile Char.isDigit == ['e']

def wordBefore (offset : Nat) : List Char → List Placed
  | [] => []
  | c :: cs => [⟨.word (String.ofList (c :: cs)), offset - utf8Length (c :: cs)⟩]

/-- The tokens from an offset on, where a word read so far goes on. -/
def spell (offset : Nat) (word : List Char) : List Char → List Placed
  | [] => wordBefore offset word
  | c :: cs =>
    let next := offset + c.utf8Size
    if c ∈ gaps then wordBefore offset word ++ spell next [] cs
    else
      match marks.lookup c with
      | none => spell next (word ++ [c]) cs
      | some t =>
        if t = .minus ∧ takesMinus word then spell next (word ++ [c]) cs
        else wordBefore offset word ++ ⟨t, offset⟩ :: spell next [] cs

end Calculator
