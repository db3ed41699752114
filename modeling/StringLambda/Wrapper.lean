import StringLambda.Combinator

namespace StringLambda

/-! A holder of one value, to which specifications are applied in turn. -/

structure Wrapper where
  held : Value
  /-- While chaining, a result takes the place of the held value. -/
  chaining : Bool
  scope : Option Ref

namespace Wrapper

def wrap (v : Value) (scope : Option Ref) : Wrapper :=
  ⟨v, false, scope⟩

def chain (w : Wrapper) : Wrapper :=
  { w with chaining := true }

/-- Ends chaining; the value taken out is the held one. -/
def release (w : Wrapper) : Wrapper :=
  { w with chaining := false }

/-- The outcome of an application: a value, or the wrapper itself. -/
inductive Outcome where
  | value (v : Value)
  | wrapper

def keep (depth : Nat) (w : Wrapper) (spec : Value) (args : List Value) : Run Wrapper := do
  return { w with held := ← kestrel depth w.held spec args w.scope }

/-- Applies a specification to the held value. While chaining, the result is held from then on. -/
def apply (depth : Nat) (w : Wrapper) (spec : Value) (args : List Value) :
    Run (Outcome × Wrapper) := do
  let result ← thrush depth w.held spec args w.scope
  if w.chaining then return (.wrapper, { w with held := result }) else return (.value result, w)

def describe (h : Heap) (w : Wrapper) : Except Defect String := do
  let held ← h.display w.held
  return "Wrapper(" ++ held ++ ", " ++ (if w.chaining then "chaining" else "single") ++ ")"

def renderOutcome (h : Heap) (w : Wrapper) : Outcome → Except Defect String
  | .value v => h.render v
  | .wrapper => w.describe h

end Wrapper

end StringLambda
