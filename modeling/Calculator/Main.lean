import Calculator.Arithmetic
import Calculator.Program

/- The program as it runs: reads the arguments, the file or standard input, and writes the answers. -/
namespace Calculator

def write (stream : IO.FS.Stream) (text : String) : IO Unit := do
  stream.putStr text
  stream.flush

partial def nextLine (stream : IO.FS.Stream) (read : List UInt8) : IO (List UInt8) := do
  match (← stream.read 1).toList with
  | [] => return read.reverse
  | byte :: _ => if byte = 10 then return (byte :: read).reverse else nextLine stream (byte :: read)

def readFile? (path : String) : IO (Option ByteArray) := do
  try
    return some (← IO.FS.readBinFile path)
  catch _ => return none

def serve (request : Request) : IO UInt32 := do
  let stdout ← IO.getStdout
  match request with
  | .run ⟨none, quiet, []⟩ =>
    let stdin ← IO.getStdin
    let prompt := Arguments.prompt ⟨none, quiet, []⟩
    write stdout prompt
    Session.fresh.converse (return (byteLines (← nextLine stdin [])).head?) (write stdout) prompt
      wordSize
    return 0
  | _ =>
    let content ← match request with
      | .run ⟨some path, _, _⟩ => readFile? path
      | _ => pure none
    let output := request.output (fun _ => content) []
    write stdout output.stdout
    write (← IO.getStderr) output.stderr
    return output.status.toUInt32

end Calculator

def main (arguments : List String) : IO UInt32 :=
  Calculator.serve (.ofArguments arguments)
