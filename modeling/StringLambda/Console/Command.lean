namespace StringLambda

/-! The commands of the interactive console. -/

inductive Command where
  | receiver | keep | apply | showReceiver | tree | cache | clear | trace | reset
deriving DecidableEq

namespace Command

def all : List Command := [
  .receiver, .keep, .apply, .showReceiver, .tree, .cache, .clear, .trace, .reset]

def name : Command → String
  | .receiver => "/recv"
  | .keep => "/k"
  | .apply => "/t"
  | .showReceiver => "/show"
  | .tree => "/ast"
  | .cache => "/cache"
  | .clear => "/clear"
  | .trace => "/py-traceback"
  | .reset => "/reset"

def ofName? (name : String) : Option Command :=
  all.find? (·.name == name)

def purpose : Command → String
  | .receiver => "Set the receiver"
  | .keep => "Apply K to the receiver"
  | .apply => "Apply T and keep the result as receiver"
  | .showReceiver => "Print the receiver"
  | .tree => "Show how a spec compiles"
  | .cache => "Show the lambda cache size"
  | .clear => "Clear the terminal screen"
  | .trace => "Toggle Python traceback on errors"
  | .reset => "Reset the receiver and the lambda cache"

def hint : Command → String
  | .receiver => "EXPR"
  | .keep | .apply | .tree => "SPEC"
  | .trace => "[on|off]"
  | .showReceiver | .cache | .clear | .reset => ""

def explanation (c : Command) : String :=
  if c.hint.isEmpty then c.purpose else c.hint ++ "  " ++ c.purpose

def usage (c : Command) : String :=
  "Usage: " ++ c.name ++ " " ++ c.hint

end Command

end StringLambda
