import StringLambda.Console.CommandLine
import StringLambda.Console.Interactive

namespace StringLambda.Program

/-! The program. -/

def printOutput : Output → IO Unit
  | .line s => IO.println s
  | .text s => IO.print s
  | .clearScreen => IO.print "\x1b[2J\x1b[H"

def flushTerminal (t : Terminal) : IO Terminal := do
  t.output.forM printOutput
  IO.eprint t.errors
  (← IO.getStdout).flush
  return { t with output := [], errors := "" }

def stopText : Stop → String
  | .fault _ => "Internal failure of an operation"
  | .unfinished => "Out of steps"

def perform {α : Type} (act : Session α) (t : Terminal) : IO (Option α × Terminal) := do
  match act t with
  | .ok a t => return (some a, ← flushTerminal t)
  | .error stop t =>
    let t ← flushTerminal t
    IO.eprintln (stopText stop)
    return (none, t)

/-- Reads and answers lines until the input ends or an operation fails. -/
partial def answerInput (input : IO.FS.Stream) (t : Terminal) : IO UInt32 := do
  let (_, t) ← perform Session.showPrompt t
  IO.print (t.prompts.getLastD "")
  (← IO.getStdout).flush
  let line ← input.getLine
  if line.isEmpty then
    IO.println ""
    return 0
  else
    let (answer, t) ← perform (Session.runLine callLimit line) { t with prompts := [] }
    if answer.isNone then return 1 else answerInput input t

def readEnvironment : IO Environment := do
  let mut env : Environment := []
  for name in [Environment.traceName, Environment.logLevelName] do
    if let some value ← IO.getEnv name then
      env := env.set name value
  return env

def run (args : List String) : IO UInt32 := do
  let (ending, t) ← perform (CommandLine.run callLimit args) (.start (← readEnvironment))
  match ending with
  | none => return 1
  | some (.status code) => return code.toUInt32
  | some (.refused message) =>
    IO.eprintln message
    return 1
  | some .interactive =>
    IO.println Session.banner
    answerInput (← IO.getStdin) t

end StringLambda.Program

def main (args : List String) : IO UInt32 :=
  StringLambda.Program.run args
