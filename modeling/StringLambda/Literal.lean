import StringLambda.Call

namespace StringLambda

/-! Values written as text. -/

/-- Faults of the text itself or of its evaluation, as against those of an invocation within it. -/
def Fault.isOfText : Fault → Bool
  | .source _ | .compile _ | .evaluation .. => true
  | .invocation .. | .builtin _ => false

/-- What a text stands for: the value of the expression that it is, or else the text itself. -/
def readLiteral (depth : Nat) (text : String) : Run Value :=
  match Tree.ofSource text with
  | .error _ => pure (.text text)
  | .ok tree => fun m =>
    match eval (call depth) ⟨[], none, none⟩ tree m with
    | .error (.fault f) m' =>
      if f.isOfText then .ok (.text text) m' else .error (.fault f) m'
    | result => result

end StringLambda
