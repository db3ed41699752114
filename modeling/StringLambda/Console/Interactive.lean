import StringLambda.Console.Command
import StringLambda.Console.Terminal
import StringLambda.Literal

namespace StringLambda

/-! The interactive console: each line is a command, or a specification for the held receiver. -/

namespace Session

def isInvisible (c : Char) : Bool :=
  c == '\u200b' || c == '\u200c' || c == '\u200d' || c == '\ufeff' || c == '\u00a0' || c == '\r'

def visible (line : String) : String :=
  String.ofList (line.toList.filter (!isInvisible ·))

/-- The name of a command and its argument, which is empty if there is none. -/
def splitCommand (line : String) : String × String :=
  let (name, rest) := Text.splitWord line
  (name, (rest.map Text.trim).getD "")

/-- The setting that an argument of the trace command asks for; the empty argument asks for a
change. -/
def traceSetting? (current : Bool) (arg : String) : Option Bool :=
  let word := Text.lower arg
  if ["on", "1", "true", "yes"].contains word then some true
  else if ["off", "0", "false", "no"].contains word then some false
  else if arg.isEmpty then some !current
  else none

def setTrace (arg : String) : Session Unit := do
  match traceSetting? (← get).environment.showsTrace arg with
  | some on =>
    modify fun t => { t with environment := t.environment.setTrace on }
    writeLine ("Python traceback: " ++ if on then "on" else "off")
  | none => writeError Command.trace.usage

def showTree (source : String) : Session Unit := do
  let (_, f) ← ofRun (Run.compile source [])
  writeLine f.describe
  write (.text f.body.outline)

/-- Applies a specification and holds the result. Chaining starts before the application, and a
failure leaves it on. -/
def applyAndHold (depth : Nat) (spec : String) : Session Unit := do
  setWrapper (← get).wrapper.chain
  let (_, wrapper) ← ofRun ((← get).wrapper.apply depth (.text spec) [])
  setWrapper wrapper
  writeReceiver

def withArgument (command : Command) (arg : String) (act : Session Unit) : Session Unit :=
  if arg.isEmpty then writeError command.usage else act

def runCommand (depth : Nat) (command : Command) (arg : String) : Session Unit := do
  match command with
  | .receiver => withArgument command arg do
    setWrapper (.wrap (← ofRun (readLiteral depth arg)) none)
    writeReceiver
  | .keep => withArgument command arg do
    setWrapper (← ofRun ((← get).wrapper.keep depth (.text arg) []))
    writeReceiver
  | .apply => withArgument command arg (applyAndHold depth arg)
  | .showReceiver => writeReceiver
  | .tree => withArgument command arg (showTree arg)
  | .cache => writeLine (intText (← get).machine.cache.size ++ " cached lambda(s)")
  | .clear => write .clearScreen
  | .trace => setTrace arg
  | .reset =>
    ofRun Run.clearCache
    setWrapper (.wrap .null none)
    writeLine "Environment reset."

def applyLine (depth : Nat) (spec : String) : Session String := do
  let (outcome, wrapper) ← ofRun ((← get).wrapper.apply depth (.text spec) [])
  setWrapper wrapper
  ofDefect (wrapper.renderOutcome (← get).machine.heap outcome)

def answerCommand (depth : Nat) (line : String) : Session Unit := do
  let (name, arg) := splitCommand line
  match Command.ofName? name with
  | some command => runCommand depth command arg
  | none => writeError ("Unknown command: " ++ name)

def runLine (depth : Nat) (line : String) : Session Unit := do
  let line := Text.trim (visible line)
  if line.isEmpty then return
  else if line.toList.head? = some '/' then
    let _ ← reporting (answerCommand depth line)
  else
    match ← reporting (applyLine depth line) with
    | some text => writeLine text
    | none => return

def banner : String := "ktlambda repl - Ctrl-D to exit, / for commands"

def showPrompt : Session Unit := do
  let prompt := (← render (← receiver)) ++ " > "
  modify fun t => { t with prompts := t.prompts ++ [prompt] }

/-- Answers each line; none stands for an interrupted one. The end of the lines ends the loop. -/
def answerLines (depth : Nat) : List (Option String) → Session Unit
  | [] => do
    showPrompt
    writeLine ""
  | line :: lines => do
    showPrompt
    match line with
    | some text => runLine depth text
    | none => writeLine "KeyboardInterrupt"
    answerLines depth lines

def interact (depth : Nat) (lines : List (Option String)) : Session Unit := do
  writeLine banner
  answerLines depth lines

end Session

end StringLambda
