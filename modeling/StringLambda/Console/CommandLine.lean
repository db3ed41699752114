import StringLambda.Console.Terminal
import StringLambda.Literal
import StringLambda.Text.Search

namespace StringLambda

/-! The command line. -/

structure Request where
  /-- The receiver is the result, not what the specification gives. -/
  keep : Bool
  logLevel : Option String
  /-- The specification, the receiver and further arguments. -/
  values : List String

inductive Ending where
  | status (code : Nat)
  /-- The arguments or the environment are refused. -/
  | refused (message : String)
  /-- The user goes on in the interactive console. -/
  | interactive

namespace CommandLine

def usage : String := "usage: ktlambda [--k] [--log-level LEVEL] SPEC [RECEIVER] [ARG ...]"

def logLevelFlag : String := "--log-level"

def attachedLevel? (arg : String) : Option String :=
  let start := (logLevelFlag ++ "=").toList
  if start.isPrefixOf arg.toList then some (String.ofList (arg.toList.drop start.length)) else none

/-- Reads the arguments. Flags stand in front of the specification, and all that follows it is a
value. A call for help ends the reading. -/
def readArguments (keep : Bool) (level : Option String) : List String → Except Ending Request
  | [] => .ok ⟨keep, level, []⟩
  | arg :: args =>
    if arg == "--k" then readArguments true level args
    else
      match attachedLevel? arg with
      | some level => readArguments keep (some level) args
      | none =>
        if arg == logLevelFlag then
          match args with
          | [] => .error (.refused (logLevelFlag ++ " flag requires a level"))
          | level :: args => readArguments keep (some level) args
        else if arg == "-h" || arg == "--help" then .error (.status 0)
        else .ok ⟨keep, level, arg :: args⟩

def readLiterals (depth : Nat) : List String → Run (List Value)
  | [] => pure []
  | text :: texts => do
    let v ← readLiteral depth text
    return v :: (← readLiterals depth texts)

/-- Applies a specification to a receiver and arguments that are written as text; without a receiver
it is null. -/
def applyTexts (depth : Nat) (keep : Bool) (spec : String) (texts : List String) :
    Session Ending := do
  let (receiver, args) ← Session.ofRun do
    match ← readLiterals depth texts with
    | [] => return (Value.null, [])
    | receiver :: args => return (receiver, args)
  match ← Session.reporting (Session.ofRun (applySpec depth keep (.text spec) receiver args)) with
  | none => return .status 1
  | some v =>
    Session.writeLine (← Session.render v)
    return .status 0

def run (depth : Nat) (args : List String) : Session Ending := do
  match readArguments false none args with
  | .error (.status code) =>
    Session.writeLine usage
    return .status code
  | .error ending => return ending
  | .ok request =>
    match LogLevel.resolve (← get).environment request.logLevel with
    | .error name => return .refused (LogLevel.refusal name)
    | .ok _ =>
      match request.values with
      | [] => return .interactive
      | spec :: texts => applyTexts depth request.keep spec texts

end CommandLine

end StringLambda
