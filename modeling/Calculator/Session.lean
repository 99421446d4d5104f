import Calculator.Evaluation
import Calculator.Journal
import Calculator.Lexer
import Calculator.Line
import Calculator.WhiteSpace

/- Evaluating lines of text, and sessions of lines that share their variables.
   An accepted line of a session also binds the last value; a rejected one changes nothing. -/
namespace Calculator

structure Evaluated where
  result : Except LineError Float
  store : Store
  journal : List Event

def Store.runLine (s : Store) (line : String) : Evaluated :=
  let tokens := lex line
  match Expr.ofTokens tokens with
  | .error error => ⟨.error error, s, [.tokens tokens]⟩
  | .ok e =>
    let done := s.evaluation e
    ⟨.ok done.value, done.store,
      .tokens tokens :: .parsed e.visits e.assigns ::
        done.bound.map fun (name, value) => .bound name value⟩

inductive Reply where
  | blank
  | accepted (value : Float)
  | rejected (error : LineError)

def rejectedText : String := "ERROR"

def Reply.text? : Reply → Option String
  | .blank => none
  | .accepted value => some (String.ofList (writeResult value))
  | .rejected _ => some rejectedText

structure Session where
  store : Store

def Session.fresh : Session := ⟨.fresh⟩

structure Turn where
  reply : Reply
  session : Session
  journal : List Event

def Session.enter (s : Session) (line : String) : Turn :=
  if isBlankLine line then ⟨.blank, s, []⟩
  else
    let done := s.store.runLine line
    match done.result with
    | .ok value =>
      ⟨.accepted value, ⟨done.store.set lastName value⟩, done.journal ++ [.bound lastName value]⟩
    | .error error => ⟨.rejected error, ⟨done.store⟩, done.journal ++ [.rejected line error]⟩

def Session.turns (s : Session) : List String → List Turn
  | [] => []
  | line :: rest =>
    let turn := s.enter line
    turn :: turn.session.turns rest

end Calculator
