import StringLambda.Console.Settings
import StringLambda.Wrapper

namespace StringLambda

/-! The state that a user works with: the machine, the environment, the held receiver and what has
been written. -/

inductive Output where
  | line (s : String)
  /-- Text without an end of line. -/
  | text (s : String)
  | clearScreen

structure Terminal where
  machine : Machine
  environment : Environment
  wrapper : Wrapper
  /-- What has been written as output, in order. -/
  output : List Output
  /-- What has been written about errors. -/
  errors : String
  /-- The prompts that have been shown, in order. -/
  prompts : List String

namespace Terminal

def start (environment : Environment) : Terminal :=
  ⟨.initial, environment, .wrap .null none, [], "", []⟩

end Terminal

abbrev Session := EStateM Stop Terminal

namespace Session

variable {α : Type}

def ofRun (act : Run α) : Session α := fun t =>
  match act t.machine with
  | .ok a machine => .ok a { t with machine }
  | .error e machine => .error e { t with machine }

def write (o : Output) : Session Unit :=
  modify fun t => { t with output := t.output ++ [o] }

def writeLine (s : String) : Session Unit :=
  write (.line s)

def writeError (s : String) : Session Unit :=
  modify fun t => { t with errors := t.errors ++ s ++ "\n" }

def setWrapper (wrapper : Wrapper) : Session Unit :=
  modify fun t => { t with wrapper }

def receiver : Session Value := do
  setWrapper (← get).wrapper.release
  return (← get).wrapper.held

def ofDefect : Except Defect α → Session α
  | .ok a => pure a
  | .error d => throw (.fault (.builtin d))

def render (v : Value) : Session String := do
  ofDefect ((← get).machine.heap.render v)

def writeReceiver : Session Unit := do
  writeLine (← render (← receiver))

/-- The head of a trace, which error reports show on demand. -/
def traceHead : String := "\nPython traceback:"

def reportFault (f : Fault) : Session Unit := do
  writeError ("Error: " ++ f.message)
  if (← get).environment.showsTrace then writeError traceHead

/-- Runs an action and reports a fault that the language accounts for; then there is no result. -/
def reporting (act : Session α) : Session (Option α) := fun t =>
  match act t with
  | .ok a t' => .ok (some a) t'
  | .error (.fault f) t' =>
    if f.isAccounted then (do reportFault f; return none : Session (Option α)) t'
    else .error (.fault f) t'
  | .error .unfinished t' => .error .unfinished t'

end Session

end StringLambda
