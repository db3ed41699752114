import StringLambda.Text.Blank
import StringLambda.Text.Case

namespace StringLambda

/-! Settings from the environment. -/

abbrev Environment := List (String × String)

namespace Environment

def set (env : Environment) (name value : String) : Environment :=
  (name, value) :: env.filter (·.1 != name)

def unset (env : Environment) (name : String) : Environment :=
  env.filter (·.1 != name)

/-- A variable is on when its value is one of these words, in any case and between blanks. -/
def flagWords : List String := ["1", "true", "yes", "on"]

def flag (env : Environment) (name : String) : Bool :=
  match env.lookup name with
  | some value => flagWords.contains (Text.lower (Text.trim value))
  | none => false

/-- The variable that turns traces in error reports on. -/
def traceName : String := "KTLAMBDA_DEBUG_PY_TRACE"

def logLevelName : String := "KTLAMBDA_LOG_LEVEL"

def showsTrace (env : Environment) : Bool :=
  env.flag traceName

def setTrace (env : Environment) (on : Bool) : Environment :=
  if on then env.set traceName "1" else env.unset traceName

end Environment

/-- How grave a log record is at least. -/
inductive LogLevel where
  | critical | error | warning | info | debug | notSet
deriving DecidableEq

namespace LogLevel

def rank : LogLevel → Nat
  | .critical => 50
  | .error => 40
  | .warning => 30
  | .info => 20
  | .debug => 10
  | .notSet => 0

def names : List (String × LogLevel) := [
  ("CRITICAL", .critical), ("FATAL", .critical), ("ERROR", .error), ("WARN", .warning),
  ("WARNING", .warning), ("INFO", .info), ("DEBUG", .debug), ("NOTSET", .notSet)]

def given (name : Option String) : Option String :=
  name.filter (!·.isEmpty)

/-- The level of the given name, or else of the one in the environment, or else warnings. The error
is the name that is no level. -/
def resolve (env : Environment) (name : Option String) : Except String LogLevel :=
  let name := ((given name).or (given (env.lookup Environment.logLevelName))).getD "WARNING"
  match names.lookup (Text.upper (Text.trim name)) with
  | some level => .ok level
  | none => .error name

def refusal (name : String) : String :=
  "Unknown log level: " ++ name

end LogLevel

end StringLambda
