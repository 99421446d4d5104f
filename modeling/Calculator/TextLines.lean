/- Lines of a text: they end at a newline, and one carriage return before it is dropped. The same
   rule holds for characters and for bytes. -/
namespace Calculator

variable {α : Type} [DecidableEq α]

/-- The line whose units are given in reverse, without the carriage return at its end. -/
def endedLine (ret : α) : List α → List α
  | [] => []
  | x :: before => if x = ret then before.reverse else (x :: before).reverse

/-- Splits what follows a part of a line, whose units are given in reverse. Nothing after the last
    newline is no line. -/
def splitFrom (newline ret : α) : List α → List α → List (List α)
  | [], [] => []
  | part, [] => [part.reverse]
  | part, x :: rest =>
    if x = newline then endedLine ret part :: splitFrom newline ret [] rest
    else splitFrom newline ret (x :: part) rest

def textLines (text : List Char) : List (List Char) := splitFrom '\n' '\r' [] text

def byteLines (bytes : List UInt8) : List (List UInt8) := splitFrom 10 13 [] bytes

end Calculator
