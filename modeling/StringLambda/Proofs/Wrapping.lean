import StringLambda.Wrapper

namespace StringLambda

/-! Steps on a wrapper. A wrapper that is taken through steps, of which some may fail, goes through
the states of a value and a flag to which the combinators are applied directly. -/

namespace Wrapper

variable (depth : Nat) (w : Wrapper) (spec : Value) (args : List Value)

theorem keep_eq : w.keep depth spec args = do
    let _ ← thrush depth w.held spec args w.scope
    return w := by
  simp [keep, kestrel]

theorem apply_of_chaining (h : w.chaining = true) : w.apply depth spec args = do
    let result ← thrush depth w.held spec args w.scope
    return (.wrapper, { w with held := result }) := by
  simp [apply, h]

theorem apply_of_single (h : w.chaining = false) : w.apply depth spec args = do
    let result ← thrush depth w.held spec args w.scope
    return (.value result, w) := by
  simp [apply, h]

end Wrapper

/-- A specification with its arguments, applied for its effect or for its result. -/
structure Application where
  keep : Bool
  spec : Value
  args : List Value

/-- The combinator alone, on a receiver. -/
def Application.on (depth : Nat) (scope : Option Ref) (receiver : Value) (a : Application) :
    Run Value :=
  if a.keep then kestrel depth receiver a.spec a.args scope
  else thrush depth receiver a.spec a.args scope

namespace Wrapper

inductive Step where
  | chain
  | value
  | application (a : Application)

def take (depth : Nat) (w : Wrapper) : Step → Run (Outcome × Wrapper)
  | .chain => pure (.wrapper, w.chain)
  | .value => pure (.value w.held, w.release)
  | .application a =>
    if a.keep then return (.wrapper, ← w.keep depth a.spec a.args)
    else w.apply depth a.spec a.args

/-- What is seen after a step: its answer, what is held then, and the state of the machine. -/
structure Sight where
  answer : Except Stop Outcome
  held : Value
  chaining : Bool
  machine : Machine

/-- Takes one step after the other. A step that fails leaves the wrapper to the next one. -/
def record (depth : Nat) : Wrapper → List Step → Machine → List Sight
  | _, [], _ => []
  | w, step :: steps, m =>
    match w.take depth step m with
    | .ok (answer, w) n => ⟨.ok answer, w.held, w.chaining, n⟩ :: record depth w steps n
    | .error stop n => ⟨.error stop, w.held, w.chaining, n⟩ :: record depth w steps n

/-- Takes applications; the first that fails is the last. -/
def through (depth : Nat) (w : Wrapper) (as : List Application) : Run Wrapper :=
  as.foldlM (fun w a => do return (← w.take depth (.application a)).2) w

end Wrapper

/-- A value, and whether results take its place. -/
structure Holding where
  held : Value
  chaining : Bool

namespace Holding

open Wrapper (Outcome Step Sight)

def perform (depth : Nat) (scope : Option Ref) (s : Holding) : Step → Run Value
  | .application a => a.on depth scope s.held
  | .chain | .value => pure s.held

def after (s : Holding) (result : Value) : Step → Holding
  | .chain => { s with chaining := true }
  | .value => { s with chaining := false }
  | .application a => if s.chaining && !a.keep then { s with held := result } else s

def answer (s : Holding) (result : Value) : Step → Outcome
  | .chain => .wrapper
  | .value => .value s.held
  | .application a => if s.chaining || a.keep then .wrapper else .value result

/-- The states after one step and the other. A step that fails changes the machine alone. -/
def record (depth : Nat) (scope : Option Ref) : Holding → List Step → Machine → List Sight
  | _, [], _ => []
  | s, step :: steps, m =>
    match s.perform depth scope step m with
    | .ok v n =>
      let next := s.after v step
      ⟨.ok (s.answer v step), next.held, next.chaining, n⟩ :: record depth scope next steps n
    | .error stop n => ⟨.error stop, s.held, s.chaining, n⟩ :: record depth scope s steps n

def under (s : Holding) (scope : Option Ref) : Wrapper :=
  ⟨s.held, s.chaining, scope⟩

variable (depth : Nat) (scope : Option Ref) (s : Holding)

theorem take_under (step : Step) :
    (s.under scope).take depth step = do
      let v ← s.perform depth scope step
      return (s.answer v step, (s.after v step).under scope) := by
  cases step with
  | chain => rfl
  | value => rfl
  | application a =>
      obtain ⟨keep, spec, args⟩ := a
      cases keep with
      | true =>
          -- The combinator gives its receiver, so that the value that is held next is the same.
          simp [Wrapper.take, Wrapper.keep_eq, perform, after, answer, under, Application.on,
            kestrel]
      | false =>
          obtain ⟨held, chaining⟩ := s
          cases chaining with
          | true =>
              simp [Wrapper.take, Wrapper.apply_of_chaining, perform, after, answer, under,
                Application.on]
          | false =>
              simp [Wrapper.take, Wrapper.apply_of_single, perform, after, answer, under,
                Application.on]

theorem record_under (steps : List Step) (m : Machine) :
    (s.under scope).record depth steps m = record depth scope s steps m := by
  induction steps generalizing s m with
  | nil => rfl
  | cons step steps ih =>
      simp only [Wrapper.record, record, take_under, Bind.bind, EStateM.bind]
      cases s.perform depth scope step m with
      | ok v n => exact congrArg _ (ih (s.after v step) n)
      | error stop n => exact congrArg _ (ih s n)

theorem bind_after_application {α : Type} (a : Application) (v : Value) (f : Holding → Run α) :
    (do
      let result ← a.on depth scope v
      f (after ⟨v, true⟩ result (.application a))) =
    (do
      let result ← a.on depth scope v
      f ⟨result, true⟩) := by
  obtain ⟨keep, spec, args⟩ := a
  cases keep <;> simp [after, Application.on, kestrel]

theorem through_under (as : List Application) (v : Value) :
    (under ⟨v, true⟩ scope).through depth as = do
      let result ← as.foldlM (Application.on depth scope) v
      return under ⟨result, true⟩ scope := by
  induction as generalizing v with
  | nil => simp [Wrapper.through]
  | cons a as ih =>
      have htake : (under ⟨v, true⟩ scope).through depth (a :: as) = (do
          let result ← a.on depth scope v
          (under (after ⟨v, true⟩ result (.application a)) scope).through depth as) := by
        simp [Wrapper.through, take_under, perform]
      rw [htake, bind_after_application depth scope a v fun s => (s.under scope).through depth as]
      simp [ih]

end Holding

/-- A wrapper that is taken through any steps shows after each of them what the value and the flag
show to which the combinators are applied directly, also where steps fail. So applications while
chaining, and then the value, are the combinators one after the other. -/
theorem Wrapper.record_wrap :
    (∀ depth v scope steps m, (wrap v scope).record depth steps m =
      Holding.record depth scope ⟨v, false⟩ steps m) ∧
    ∀ depth v scope (as : List Application),
      (do
        let (_, w) ← (wrap v scope).take depth .chain
        let w ← w.through depth as
        let (answer, _) ← w.take depth .value
        return answer) = do
        return .value (← as.foldlM (Application.on depth scope) v) := by
  refine ⟨?_, ?_⟩
  · intro depth v scope steps m
    exact Holding.record_under depth scope ⟨v, false⟩ steps m
  · intro depth v scope as
    show (do
      let w ← (Holding.under ⟨v, true⟩ scope).through depth as
      return Outcome.value w.held) = _
    rw [Holding.through_under]
    simp [Holding.under]

end StringLambda
