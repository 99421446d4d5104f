import Calculator.Session
import Calculator.TextLines

/- Answering lines from the arguments, from a file or from standard input: what the program writes, and
   the status with which it ends. -/
namespace Calculator

structure Output where
  status : Nat
  stdout : String
  stderr : String
  deriving DecidableEq, Repr

def Output.ok (stdout : String) : Output := ⟨0, stdout, ""⟩

structure Arguments where
  file : Option String
  quiet : Bool
  expressions : List String
  deriving DecidableEq, Repr

/-- What becomes of the arguments; reading them may end the program. -/
inductive Request where
  | run (arguments : Arguments)
  | exit (output : Output)
  deriving DecidableEq, Repr

def promptText : String := ">> "

def Arguments.prompt (a : Arguments) : String := if a.quiet then "" else promptText

def unlines (lines : List String) : String := String.join (lines.map (· ++ "\n"))

def fileLines? (content : ByteArray) : Option (List String) :=
  (String.fromUTF8? content).map fun text => (textLines text.toList).map String.ofList

def Session.answers (s : Session) (lines : List String) : List String :=
  (s.turns lines).filterMap (·.reply.text?)

/-- One line typed at a session: what is written in answer and the session after it, or `none` where
    the bytes are not UTF-8, which ends the session. -/
def Session.respond? (s : Session) (prompt : String) (bytes : List UInt8) :
    Option (String × Session) :=
  (String.fromUTF8? bytes.toByteArray).map fun line =>
    let turn := s.enter line
    match turn.reply.text? with
    | none => ("", turn.session)
    | some text => (text ++ "\n" ++ prompt, turn.session)

def Session.dialogue (s : Session) (prompt : String) : List (List UInt8) → List String
  | [] => []
  | bytes :: rest =>
    match s.respond? prompt bytes with
    | none => []
    | some (text, s) => text :: s.dialogue prompt rest

/-- The same in any monad that gives the lines, up to so many of them, and takes the answers. -/
def Session.converse {m : Type → Type} [Monad m] (line? : m (Option (List UInt8)))
    (write : String → m Unit) (prompt : String) : Nat → Session → m Unit
  | 0, _ => return
  | limit + 1, s => do
    match ← line? with
    | none => return
    | some bytes =>
      match s.respond? prompt bytes with
      | none => return
      | some (text, s) => do
        write text
        s.converse line? write prompt limit

def unreadableText (path : String) : String :=
  "Failed to read the input file '" ++ path ++ "'. Perhaps this file does not exist?\n"

def Arguments.output (a : Arguments) (file? : String → Option ByteArray) (input : List UInt8) :
    Output :=
  match a.file with
  | some path =>
    match (file? path).bind fileLines? with
    | none => ⟨1, "", unreadableText path⟩
    | some lines => .ok (unlines (Session.fresh.answers lines))
  | none =>
    if a.expressions ≠ [] then .ok (unlines (Session.fresh.answers a.expressions))
    else .ok (a.prompt ++ String.join (Session.fresh.dialogue a.prompt (byteLines input)))

def Request.output (r : Request) (file? : String → Option ByteArray) (input : List UInt8) : Output :=
  match r with
  | .run arguments => arguments.output file? input
  | .exit output => output

end Calculator
