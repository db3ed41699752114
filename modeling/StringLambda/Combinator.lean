import StringLambda.Call

namespace StringLambda

/-! The two combinators. `depth` bounds the nested calls. -/

def thrush (depth : Nat) (receiver spec : Value) (args : List Value) (scope : Option Ref) :
    Run Value :=
  invoke (call depth) receiver spec args scope none

def kestrel (depth : Nat) (receiver spec : Value) (args : List Value) (scope : Option Ref) :
    Run Value := do
  let _ ← thrush depth receiver spec args scope
  return receiver

def applySpec (depth : Nat) (keep : Bool) (spec receiver : Value) (args : List Value) : Run Value :=
  if keep then kestrel depth receiver spec args none else thrush depth receiver spec args none

end StringLambda
