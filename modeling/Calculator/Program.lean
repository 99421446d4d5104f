import Calculator.Modes

/- The command line of the program, read argument by argument. Asking for help or for the version ends the
   reading, and so does the first mistake. -/
namespace Calculator

/-- The arguments read so far. A path may still be awaited, and after `--` all arguments are
    expressions. -/
structure Options where
  asked : Arguments
  awaitingPath : Bool
  onlyExpressions : Bool

def Options.start : Options := ⟨⟨none, false, []⟩, false, false⟩

def helpText : String :=
  "An interactive arithmetic expression evaluator with variables.\n\n" ++
  "Usage: calc [OPTIONS] [EXPRESSIONS]...\n\n" ++
  "Arguments:\n" ++
  "  [EXPRESSIONS]...  Expressions to evaluate in order, sharing one set of variables\n\n" ++
  "Options:\n" ++
  "  -f, --file <FILE>  Reads lines from a file instead of standard input\n" ++
  "  -q, --quiet        Suppresses the `>> ` prompt in interactive mode\n" ++
  "  -h, --help         Print help\n" ++
  "  -V, --version      Print version\n"

def versionText : String := "calc 0.1.0\n"

def Request.help : Request := .exit (.ok helpText)

def Request.version : Request := .exit (.ok versionText)

def Request.mistake : Request := .exit ⟨2, "", ""⟩

def Options.setQuiet (o : Options) : Except Request Options :=
  if o.asked.quiet then .error .mistake else .ok { o with asked.quiet := true }

def Options.setPath (o : Options) (path : List Char) : Except Request Options :=
  if o.asked.file.isSome ∨ path = [] then .error .mistake
  else .ok { o with asked.file := some (String.ofList path), awaitingPath := false }

def Options.addExpression (o : Options) (text : List Char) : Options :=
  { o with asked.expressions := o.asked.expressions ++ [String.ofList text] }

/-- Short options may stand together; what follows `f` is the path, after an optional `=`. -/
def Options.takeShort (o : Options) : List Char → Except Request Options
  | [] => .ok o
  | 'q' :: rest => o.setQuiet.bind (·.takeShort rest)
  | 'h' :: _ => .error .help
  | 'V' :: _ => .error .version
  | ['f'] => .ok { o with awaitingPath := true }
  | 'f' :: '=' :: path => o.setPath path
  | 'f' :: path => o.setPath path
  | _ => .error .mistake

/-- A long option has to be written out; a path may follow after `=`. -/
def Options.takeLong (o : Options) (text : List Char) : Except Request Options :=
  match String.ofList (text.takeWhile (· != '=')), (text.dropWhile (· != '=')).tail? with
  | "quiet", none => o.setQuiet
  | "help", none => .error .help
  | "version", none => .error .version
  | "file", none => .ok { o with awaitingPath := true }
  | "file", some path => o.setPath path
  | _, _ => .error .mistake

/-- An argument that starts with `-` is an option, but `-` alone is not. -/
def Options.take (o : Options) (argument : String) : Except Request Options :=
  let text := argument.toList
  if o.onlyExpressions then .ok (o.addExpression text)
  else
    match text with
    | '-' :: c :: rest =>
      if o.awaitingPath then .error .mistake
      else if c = '-' then
        if rest = [] then .ok { o with onlyExpressions := true } else o.takeLong rest
      else o.takeShort (c :: rest)
    | _ => if o.awaitingPath then o.setPath text else .ok (o.addExpression text)

def Options.finish (o : Options) : Request :=
  if o.awaitingPath ∨ o.asked.file.isSome ∧ o.asked.expressions ≠ [] then .mistake
  else .run o.asked

def Request.ofArguments (arguments : List String) : Request :=
  match arguments.foldlM Options.take Options.start with
  | .ok o => o.finish
  | .error request => request

end Calculator
