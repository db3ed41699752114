import StringLambda.Combinator
import StringLambda.Proofs.Evaluation.Congruence

namespace StringLambda

open Run

/-! The scope of callbacks. The machine keeps the scope of the innermost activation in its state;
calls that are handed this scope instead, and never look at the state for it, do the same. -/

/-- Applies a text within an activation under the scope `within`. The member or the lambda that it
stands for runs under the scope of the invocation. -/
def invokeTextWithin (call : Option Ref → Caller) (within : Option Ref) (receiver : Value)
    (spec : String) (args : List Value) (scope : Option Ref) (host : Host) : Run Value := do
  match ← Member.find (call within) host receiver spec with
  | some member =>
    if member.isCallable then
      Run.report (.invokingMember member.name)
      call scope .plain member.value args
    else if args.isEmpty then
      Run.report (.readingMember member.name)
      return member.value
    else Run.fault (.invocation (.extraArguments args.length) receiver (.text member.name))
  | none =>
    let (id, f) ← compileSpec receiver spec scope
    Run.report (.invokingLambda f.form spec)
    call within ⟨scope, some host⟩ (.lambda id f) (receiver :: args)

def invokeWithin (call : Option Ref → Caller) (within : Option Ref) (receiver spec : Value)
    (args : List Value) (scope : Option Ref) (host : Option Host) : Run Value := do
  if spec.isCallable then
    Run.report (.invokingCallable spec)
    call within .plain spec (receiver :: args)
  else
    match spec with
    | .text s => invokeTextWithin call within receiver s args scope (← Run.hostOr host)
    | _ => Run.fault (.invocation (.unsuitable spec.type) receiver spec)

/-- Calls a value within an activation under the scope `within`. A body runs under the scope of its
own activation, and a callback is invoked under the scope of the activation that it is met in. -/
def callWithin : Nat → Option Ref → Caller
  | 0, _ => fun _ _ _ => throw .unfinished
  | depth + 1, within =>
    callOnce (fun frame body => eval (callWithin depth frame.scope) frame body)
      (callWithin depth within)
      (fun callback item args =>
        invokeWithin (callWithin depth) within item callback args within none)
      depth

/-- Under the scope `within` the one run does what the other one does under any scope, and the other
one leaves the scope of the state as it is. -/
structure IsLexical (within : Option Ref) {α : Type} (act other : Run α) : Prop where
  eq : ∀ m, act { m with scope := within } =
    onState (fun n => { n with scope := within }) (other m)
  scope : ∀ m, (endOf (other m)).scope = m.scope

namespace IsLexical

variable {within scope : Option Ref} {α β : Type} {act other : Run α}

theorem plain (h : act.Plain) : IsLexical within act act :=
  ⟨fun m => h.under_scope m within, fun m => (h.keeps m).scope⟩

theorem bind {f g : α → Run β} (h : IsLexical within act other)
    (hf : ∀ a, IsLexical within (f a) (g a)) : IsLexical within (act >>= f) (other >>= g) := by
  refine ⟨fun m => ?_, fun m => ?_⟩
  · simp only [Bind.bind, EStateM.bind, h.eq m]
    cases other m with
    | ok a n => exact (hf a).eq n
    | error e n => rfl
  · have hscope := h.scope m
    simp only [Bind.bind, EStateM.bind]
    cases hm : other m with
    | ok a n =>
        rw [hm] at hscope
        exact ((hf a).scope n).trans hscope
    | error e n =>
        rw [hm] at hscope
        exact hscope

theorem located (h : IsLexical within act other) (place : Option Position) :
    IsLexical within (Run.located place act) (Run.located place other) := by
  refine ⟨fun m => ?_, fun m => ?_⟩
  · simp only [Run.located, mapStop, h.eq m]
    cases other m <;> rfl
  · have hscope := h.scope m
    simp only [Run.located, mapStop]
    cases hm : other m <;> rw [hm] at hscope <;> exact hscope

theorem withScope (h : IsLexical scope act other) :
    IsLexical within (Run.withScope scope act) other := by
  refine ⟨fun m => ?_, h.scope⟩
  simp only [Run.withScope, h.eq m]
  cases other m <;> rfl

end IsLexical

/-- Runs under a scope, and runs that are handed it, as a congruence. -/
def lexical (within : Option Ref) : Congruence where
  rel := IsLexical within
  tame h := .plain h.toPlain
  bind := .bind
  located := .located

variable {within : Option Ref}

theorem lexical_search (host : Host) : (lexical within).Searches host :=
  Stepwise.searches (C := (lexical within).toStepwise) (fun act => .plain (.ofAct act))
    ⟨fun _ => rfl, fun _ => rfl⟩

theorem lexical_defaultHost : (lexical within).rel Run.defaultHost Run.defaultHost :=
  ⟨fun _ => rfl, fun _ => rfl⟩

theorem lexical_asks (host : Option Host) : (lexical within).Asks host :=
  Stepwise.asks lexical_defaultHost lexical_search host

section

variable {call : Caller} {callWithin : Option Ref → Caller}
  (h : ∀ within, (lexical within).Calls call (callWithin within))
include h

theorem invokeText_lexical (receiver : Value) (spec : String) (args : List Value)
    (scope : Option Ref) (host : Host) :
    (lexical within).rel (invokeText call receiver spec args scope host)
      (invokeTextWithin callWithin within receiver spec args scope host) := by
  refine (lexical within).bind (Member.find_rel (h within) (lexical_search _) _ _) fun member => ?_
  cases member with
  | some member =>
      show (lexical within).rel (invokeMember _ _ _ _ _) _
      unfold invokeMember
      dsimp only
      split
      next =>
        refine (lexical within).bind ((lexical within).tame (.report _)) fun _ => ?_
        exact IsLexical.withScope (h scope _ _ _)
      next =>
        split
        next => exact (lexical within).tame (.bind (.report _) fun _ => .pure _)
        next => exact (lexical within).tame (.invocation _ _ _)
  | none =>
      exact Stepwise.compiles (fun _ _ _ => IsLexical.plain (.compileSpec _ _ _)) (h within)
        _ _ _ _ _

theorem invoke_lexical (receiver spec : Value) (args : List Value) (scope : Option Ref)
    (host : Option Host) :
    (lexical within).rel (invoke call receiver spec args scope host)
      (invokeWithin callWithin within receiver spec args scope host) := by
  unfold invoke invokeWithin
  split
  next => exact (lexical within).bind ((lexical within).tame (.report _)) fun _ => h within _ _ _
  next =>
    cases spec with
    | text s =>
        exact (lexical within).bind (Stepwise.hostOr lexical_defaultHost host) fun host =>
          invokeText_lexical h _ _ _ _ _
    | _ => exact (lexical within).tame (.invocation _ _ _)

end

/-- Every call does what the lexical call does that is handed the scope in place. -/
theorem call_lexical (depth : Nat) (within : Option Ref) :
    (lexical within).Calls (call depth) (callWithin depth within) := by
  -- A body runs under the scope of its frame, so the induction needs every scope at once.
  induction depth generalizing within with
  | zero => exact fun context callee args => (lexical within).tame .unfinished
  | succ depth ih =>
      refine callOnce_rel (fun frame body => ?_) (ih within) (fun callback item args => ?_) depth
      · exact IsLexical.withScope (eval_rel (ih frame.scope) (lexical_asks _) body)
      · have hinvoke : (lexical within).rel (invoke (call depth) item callback args within none)
            (invokeWithin (callWithin depth) within item callback args within none) :=
          invoke_lexical ih _ _ _ _ _
        exact ⟨hinvoke.eq, hinvoke.scope⟩

section

variable {receiver : Value} {name : String} {host : Option Host} {m : Machine}
  (h : Member.CallsNothing (host.getD m.host) receiver name m)
include h

theorem invokeWithin_of_callsNothing (depth : Nat) (within other : Option Ref)
    (args : List Value) (scope : Option Ref) :
    invokeWithin (callWithin depth) within receiver (.text name) args scope host m =
      invokeWithin (callWithin depth) other receiver (.text name) args scope host m := by
  have hlambda : ∀ context id f args, callWithin depth within context (.lambda id f) args =
      callWithin depth other context (.lambda id f) args := by
    intro context id f args
    cases depth <;> rfl
  have htext :
      invokeTextWithin (callWithin depth) within receiver name args scope (host.getD m.host) m =
        invokeTextWithin (callWithin depth) other receiver name args scope (host.getD m.host)
          m := by
    simp only [invokeTextWithin, hlambda]
    exact bind_congr_at (h _ _) _
  cases host <;> exact htext

theorem invoke_under_scope (depth : Nat) (args : List Value) (scope within : Option Ref) :
    invoke (call depth) receiver (.text name) args scope host { m with scope := within } =
      onState (fun n => { n with scope := within })
        (invoke (call depth) receiver (.text name) args scope host m) := by
  have hlexical : ∀ within, IsLexical within
      (invoke (call depth) receiver (.text name) args scope host)
      (invokeWithin (callWithin depth) within receiver (.text name) args scope host) :=
    fun _ => invoke_lexical (call_lexical depth) receiver (.text name) args scope host
  have hnow : invoke (call depth) receiver (.text name) args scope host m = _ :=
    (hlexical m.scope).eq m
  rw [(hlexical within).eq m, hnow, invokeWithin_of_callsNothing h depth within m.scope]
  cases invokeWithin (callWithin depth) m.scope receiver (.text name) args scope host m <;> rfl

theorem withScope_invoke (depth : Nat) (args : List Value) (scope within : Option Ref) :
    withScope within (invoke (call depth) receiver (.text name) args scope host) m =
      invoke (call depth) receiver (.text name) args scope host m := by
  refine withScope_eq (invoke_under_scope h depth args scope within) ?_
  have hnow : invoke (call depth) receiver (.text name) args scope host m =
      onState (fun n => { n with scope := m.scope })
        (invoke (call depth) receiver (.text name) args scope host m) :=
    invoke_under_scope h depth args scope m.scope
  rw [hnow]
  cases invoke (call depth) receiver (.text name) args scope host m <;> rfl

end

end StringLambda
