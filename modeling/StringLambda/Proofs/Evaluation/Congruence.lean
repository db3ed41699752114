import StringLambda.Call
import StringLambda.Proofs.Evaluation.Library
import StringLambda.Proofs.Evaluation.Plain

namespace StringLambda

/-! Runs that are related step by step. Whatever relates the calls of two callers, and is kept by
what programs do between calls, relates evaluation and the library with the one caller and with the
other. -/

namespace Run

variable {α β : Type}

/-- A relation between runs that is kept from step to step. -/
structure Stepwise where
  rel : {α : Type} → Run α → Run α → Prop
  tame : {α : Type} → {act : Run α} → act.Tame → rel act act
  bind : {α β : Type} → {act other : Run α} → {f g : α → Run β} → rel act other →
    (∀ a, rel (f a) (g a)) → rel (act >>= f) (other >>= g)

/-- Such a relation that is also kept where errors are given their place. -/
structure Congruence extends Stepwise where
  located : {α : Type} → {act other : Run α} → rel act other → (place : Option Position) →
    rel (Run.located place act) (Run.located place other)

def invokeSource (call : Caller) (receiver : Value) (spec : String) (args : List Value)
    (scope : Option Ref) (host : Host) : Run Value := do
  let (id, f) ← compileSpec receiver spec scope
  report (.invokingLambda f.form spec)
  call ⟨scope, some host⟩ (.lambda id f) (receiver :: args)

namespace Stepwise

variable (C : Stepwise)

theorem pure (a : α) : C.rel (Pure.pure a : Run α) (Pure.pure a) :=
  C.tame (.pure a)

def Calls (call other : Caller) : Prop :=
  ∀ context callee args, C.rel (call context callee args) (other context callee args)

/-- Runs that look for a member with a host are related as soon as they are where the host looks by
itself. -/
def Searches (k : Host) : Prop :=
  ∀ {call other : Caller} (receiver : Value) (name : String),
    C.rel (Member.findBy call k receiver name) (Member.findBy other k receiver name) →
    C.rel (Member.find call k receiver name) (Member.find other k receiver name)

/-- Runs that look for a member with the given host, or else with the default host, are related as
soon as they are whatever is found. -/
def Asks (host : Option Host) : Prop :=
  ∀ {call other : Caller}, C.Calls call other → ∀ (receiver : Value) (name : String) {α : Type}
    {f g : Host → Option Member → Run α}, (∀ k found, C.rel (f k found) (g k found)) →
    C.rel (hostOr host >>= fun k => Member.find call k receiver name >>= f k)
      (hostOr host >>= fun k => Member.find other k receiver name >>= g k)

def Compiles (call other : Caller) : Prop :=
  ∀ receiver spec args scope host, C.rel (invokeSource call receiver spec args scope host)
    (invokeSource other receiver spec args scope host)

variable {C}

theorem compiles {call other : Caller}
    (hcompile : ∀ receiver spec scope,
      C.rel (compileSpec receiver spec scope) (compileSpec receiver spec scope))
    (h : C.Calls call other) : C.Compiles call other := fun _ _ _ _ _ =>
  C.bind (hcompile _ _ _) fun _ => C.bind (C.tame (.report _)) fun _ => h _ _ _

/-- Whatever is put in the place of a host, runs with it are related if all operations on values
are. -/
theorem searches {k : Host} (hact : ∀ {α : Type} (act : Act α), C.rel (ofAct act) (ofAct act))
    (hsearch : C.rel (search? k) (search? k)) : C.Searches k := by
  intro call other receiver name hfind
  refine C.bind hsearch fun search => ?_
  cases search with
  | some search => exact C.bind (hact _) fun found => C.pure _
  | none => exact hfind

theorem hostOr (h : C.rel defaultHost defaultHost) (host : Option Host) :
    C.rel (Run.hostOr host) (Run.hostOr host) := by
  cases host with
  | some k => exact C.pure k
  | none => exact h

end Stepwise

end Run

open Run

variable {call other : Caller}

section

variable {C : Stepwise}

namespace Member

theorem ofRegistration_rel (h : C.Calls call other) (reg : Registration) (receiver : Value)
    (name : String) :
    C.rel (ofRegistration call reg receiver name) (ofRegistration other reg receiver name) := by
  unfold ofRegistration
  split
  next => exact C.bind (h _ _ _) fun v => C.pure _
  next =>
    split
    next => exact C.tame (.bind .freshId fun id => .pure _)
    next => exact C.tame (.defect _)

theorem findStandard_rel (h : C.Calls call other) (receiver : Value) (name : String) :
    C.rel (findStandard call receiver name) (findStandard other receiver name) := by
  unfold findStandard
  refine C.bind (C.tame (.registration? _ _)) fun reg => ?_
  cases reg with
  | some reg => exact C.bind (ofRegistration_rel h _ _ _) fun member => C.pure _
  | none =>
      refine C.bind (C.tame (.lift (receiver.entry?_compileFree name))) fun entry => ?_
      cases entry with
      | some v => exact C.pure _
      | none =>
          dsimp only
          split
          next => exact C.pure _
          next =>
            exact C.tame (.bind (.lift (receiver.attribute?_compileFree name)) fun v => .pure _)

theorem findBy_rel (h : C.Calls call other) (host : Host) (receiver : Value) (name : String) :
    C.rel (findBy call host receiver name) (findBy other host receiver name) := by
  cases host with
  | standard | other => exact findStandard_rel h _ _
  | keysOnly =>
      exact C.tame (.bind (.lift (receiver.entry?_compileFree name)) fun entry => .pure _)
  | tracing =>
      refine C.bind (C.tame ⟨.modifies ?_ ?_, fun _ => rfl, .modifies ?_⟩) fun _ =>
        findStandard_rel h _ _
      · exact fun _ _ _ _ => rfl
      · exact fun _ => ⟨rfl, rfl, rfl, rfl, rfl⟩
      · exact fun m hm => ⟨.noted m m.fresh m.events _, rfl, hm⟩

theorem find_rel (h : C.Calls call other) {host : Host} (hsearch : C.Searches host)
    (receiver : Value) (name : String) :
    C.rel (find call host receiver name) (find other host receiver name) :=
  hsearch receiver name (findBy_rel h host receiver name)

end Member

namespace Run.Stepwise

theorem asks (hdefault : C.rel defaultHost defaultHost) (hsearch : ∀ k, C.Searches k)
    (host : Option Host) : C.Asks host := fun hcalls receiver name _ _ _ hfg =>
  C.bind (hostOr hdefault host) fun k =>
    C.bind (Member.find_rel hcalls (hsearch k) receiver name) (hfg k)

end Run.Stepwise

end

section

variable {C : Stepwise} {frame : Frame}

theorem requireMember_rel (h : C.Calls call other) (hasks : C.Asks frame.host)
    (receiver : Value) (name : String) :
    C.rel (requireMember call frame receiver name) (requireMember other frame receiver name) := by
  refine hasks h receiver name fun k found => ?_
  cases found with
  | some member => exact C.pure _
  | none => exact C.tame (.raise _)

theorem callValue_rel (h : C.Calls call other) (callee : Value) (args : List Value) :
    C.rel (callValue call callee args) (callValue other callee args) := by
  unfold callValue
  split
  next => exact h _ _ _
  next => exact C.tame (.raise _)

theorem callMember_rel (h : C.Calls call other) (hasks : C.Asks frame.host) (receiver : Value)
    (name : String) (args : List Value) :
    C.rel (callMember call frame receiver name args)
      (callMember other frame receiver name args) := by
  refine C.bind (requireMember_rel h hasks _ _) fun member => ?_
  split
  next => exact h _ _ _
  next => exact C.tame (.raise _)

theorem operands_rel {left left' right right' : Run Value} (op : Tree)
    {apply : String → Value → Value → Act Value} (happly : ∀ op a b, CompileFree (apply op a b))
    (hleft : C.rel left left') (hright : C.rel right right') :
    C.rel
      (do
        let op ← operatorText op
        let a ← left
        let b ← right
        apply op a b : Run Value)
      (do
        let op ← operatorText op
        let a ← left'
        let b ← right'
        apply op a b : Run Value) := by
  refine C.bind (C.tame (.lift (operatorText_compileFree op))) fun op => ?_
  exact C.bind hleft fun a => C.bind hright fun b => C.tame (.lift (happly op a b))

end

section

variable {C : Congruence} {frame : Frame}

mutual

theorem eval_rel (h : C.Calls call other) (hasks : C.Asks frame.host) (t : Tree) :
    C.rel (eval call frame t) (eval other frame t) := by
  cases t with
  | leaf kind text => exact C.tame (by simpa only [eval_leaf] using evalLeaf_tame frame kind text)
  | node label place cs =>
      -- The cases are those of `eval`.
      unfold eval
      refine C.located ?_ _
      split
      next c y n =>
        refine C.bind (eval_rel h hasks c) fun v => C.bind (C.tame .heap) fun heap => ?_
        split
        next => exact eval_rel h hasks y
        next => exact eval_rel h hasks n
      next => exact C.tame (.raise _)
      next l r =>
        refine C.bind (eval_rel h hasks l) fun v => ?_
        cases v with
        | null => exact eval_rel h hasks r
        | _ => exact C.pure _
      next l r =>
        refine C.bind (eval_rel h hasks l) fun v => C.bind (C.tame .heap) fun heap => ?_
        split
        next => exact C.pure _
        next => exact eval_rel h hasks r
      next l r =>
        refine C.bind (eval_rel h hasks l) fun v => C.bind (C.tame .heap) fun heap => ?_
        split
        next => exact eval_rel h hasks r
        next => exact C.pure _
      next l op r =>
        exact operands_rel op Value.comparison_compileFree (eval_rel h hasks l)
          (eval_rel h hasks r)
      iterate 3
        next l op r =>
          exact operands_rel op Value.binary_compileFree (eval_rel h hasks l)
            (eval_rel h hasks r)
      next op t =>
        refine C.bind (C.tame (.lift (operatorText_compileFree _))) fun op => ?_
        exact C.bind (eval_rel h hasks t) fun v => C.tame (.lift (Value.signed_compileFree _ _))
      next head steps =>
        exact C.bind (eval_rel h hasks head) fun v => evalSteps_rel h hasks v steps
      next => exact C.bind (evalAll_rel h hasks cs) fun vs => C.tame (.newList _)
      next params body =>
        exact C.tame (.bind (.lift (parameterTexts_compileFree _)) fun names =>
          .bind .freshId fun id => .pure _)
      next =>
        split
        next => exact C.tame (.defect _)
        next => exact C.tame (.raise _)
termination_by sizeOf t

theorem evalAll_rel (h : C.Calls call other) (hasks : C.Asks frame.host) (ts : List Tree) :
    C.rel (evalAll call frame ts) (evalAll other frame ts) := by
  cases ts with
  | nil => exact C.pure _
  | cons t ts =>
      simp only [evalAll]
      refine C.bind (eval_rel h hasks t) fun v => ?_
      exact C.bind (evalAll_rel h hasks ts) fun vs => C.pure _
termination_by sizeOf ts

theorem evalSteps_rel (h : C.Calls call other) (hasks : C.Asks frame.host) (receiver : Value)
    (steps : List Tree) :
    C.rel (evalSteps call frame receiver steps) (evalSteps other frame receiver steps) := by
  cases steps with
  | nil => exact C.pure _
  | cons step steps =>
      simp only [evalSteps]
      exact C.bind (evalStep_rel h hasks receiver step) fun v => evalSteps_rel h hasks v steps
termination_by sizeOf steps

theorem evalStep_rel (h : C.Calls call other) (hasks : C.Asks frame.host) (receiver : Value)
    (step : Tree) :
    C.rel (evalStep call frame receiver step) (evalStep other frame receiver step) := by
  cases step with
  | leaf kind text => exact C.tame (.defect _)
  | node label place cs =>
      simp only [evalStep]
      unfold evalStepParts
      split
      next name rest => exact C.bind (requireMember_rel h hasks _ _) fun member => C.pure _
      next name args =>
        exact C.bind (evalArgs_rel h hasks args) fun vs => callMember_rel h hasks _ _ _
      next => exact C.tame (.defect _)
      next i rest =>
        exact C.bind (eval_rel h hasks i) fun v => C.tame (.lift (receiver.index_compileFree v))
      next args rest =>
        exact C.bind (evalArgs_rel h hasks args) fun vs => callValue_rel h _ _
      iterate 3 next => exact C.tame (.defect _)
      next => exact C.tame (.raise _)
termination_by sizeOf step

theorem evalArgs_rel (h : C.Calls call other) (hasks : C.Asks frame.host) (t : Tree) :
    C.rel (evalArgs call frame t) (evalArgs other frame t) := by
  cases t with
  | leaf kind text => exact C.pure _
  | node label place cs =>
      simp only [evalArgs]
      exact evalAll_rel h hasks cs
termination_by sizeOf t

end

end

section

variable {C : Stepwise}

namespace Items

variable {run run' : Visitor} (hrun : ∀ callback item args,
  C.rel (run callback item args) (run' callback item args))

theorem visitFrom_rel {σ : Type} {visit visit' : σ → Value → Run (ForInStep σ)}
    (h : ∀ state item, C.rel (visit state item) (visit' state item)) (list : Ref)
    (steps i : Nat) (state : σ) :
    C.rel (visitFrom list visit steps i state) (visitFrom list visit' steps i state) := by
  induction steps generalizing i state with
  | zero => exact C.tame .unfinished
  | succ steps ih =>
      simp only [visitFrom]
      refine C.bind (C.tame .heap) fun heap => ?_
      split
      next => exact C.pure _
      next =>
        refine C.bind (h _ _) fun next => ?_
        cases next with
        | done state => exact C.pure _
        | «yield» state => exact ih _ _

include hrun

theorem accepts_rel (callback item : Value) :
    C.rel (accepts run callback item) (accepts run' callback item) :=
  C.bind (hrun _ _ _) fun _ => C.tame (.bind .heap fun _ => .pure _)

theorem firstItem?_rel (steps : Nat) (list : Ref) (callback : Value) (answer : Bool) :
    C.rel (firstItem? run steps list callback answer)
      (firstItem? run' steps list callback answer) := by
  refine visitFrom_rel (fun _ item => C.bind (accepts_rel hrun _ _) fun accepted => ?_) _ _ _ _
  split
  next => exact C.pure _
  next => exact C.pure _

end Items

namespace SequenceMember

variable {run run' : Items.Visitor} (hrun : ∀ callback item args,
  C.rel (run callback item args) (run' callback item args))
include hrun

theorem applyList_rel (steps : Nat) (member : SequenceMember) (receiver : Value) (list : Ref)
    (args : List Value) :
    C.rel (member.applyList run steps receiver list args)
      (member.applyList run' steps receiver list args) := by
  cases member with
  | map =>
      refine C.bind (Items.visitFrom_rel (fun done item => ?_) _ _ _ _) fun results =>
        C.tame (.newList _)
      exact C.bind (hrun _ _ _) fun v => C.pure _
  | filter =>
      refine C.bind (Items.visitFrom_rel (fun kept item => ?_) _ _ _ _) fun kept =>
        C.tame (.newList _)
      exact C.bind (Items.accepts_rel hrun _ _) fun accepted => C.pure _
  | reduce =>
      refine C.bind (C.tame .heap) fun heap => ?_
      have hfrom : ∀ i start, C.rel
          (Items.reduceFrom run steps list (argument args 0 .null) i start)
          (Items.reduceFrom run' steps list (argument args 0 .null) i start) := by
        intro i start
        refine Items.visitFrom_rel (fun soFar item => ?_) _ _ _ _
        exact C.bind (hrun _ _ _) fun v => C.pure _
      split
      next => exact hfrom _ _
      next => exact hfrom _ _
      next => exact C.tame (.raise _)
  | forEach =>
      refine C.bind (Items.visitFrom_rel (fun _ item => ?_) _ _ _ _) fun _ => C.pure _
      exact C.bind (hrun _ _ _) fun v => C.pure _
  | some | every | find =>
      exact C.bind (Items.firstItem?_rel hrun _ _ _ _) fun found => C.pure _
  | push => exact C.tame (.lift (Items.push_compileFree _ _))
  | pop => exact C.tame (.lift (Items.pop_compileFree _))
  | shift => exact C.tame (.lift (Items.shift_compileFree _))
  | unshift => exact C.tame (.lift (Items.unshift_compileFree _ _))
  | reverse => exact C.tame (.bind (.lift (Items.reverse_compileFree _)) fun _ => .pure _)
  | _ => exact C.tame (.lift (read_compileFree _ _ _))

theorem apply_rel (steps : Nat) (member : SequenceMember) (receiver : Value) (args : List Value) :
    C.rel (member.apply run steps receiver args) (member.apply run' steps receiver args) := by
  unfold apply
  split
  next r => exact applyList_rel hrun _ _ _ _ _
  next r =>
    split
    next => exact C.tame (.lift (read_compileFree _ _ _))
    next => exact C.tame (.defect _)
  next r =>
    split
    next => exact C.tame (.bind .heap fun heap => .pure _)
    next => exact C.tame (.defect _)
  next => exact C.tame (.defect _)

end SequenceMember

theorem Builtin.apply_rel {run run' : Items.Visitor} (hrun : ∀ callback item args,
    C.rel (run callback item args) (run' callback item args)) (steps : Nat) (function : Builtin)
    (args : List Value) :
    C.rel (function.apply run steps args) (function.apply run' steps args) := by
  unfold Builtin.apply
  split
  next f args =>
    split
    next => exact C.tame (.lift (GlobalFunction.apply_compileFree _ _))
    next => exact C.tame (.defect _)
  next f receiver args =>
    split
    next =>
      split
      next => exact C.tame (.lift (TextMember.apply_compileFree _ _ _))
      next => exact SequenceMember.apply_rel hrun _ _ _ _
      next => exact C.tame (.lift (NumberMember.apply_compileFree _ _ _))
      next => exact C.tame (.defect _)
    next => exact C.tame (.defect _)
  next => exact C.tame (.defect _)

theorem DictMethod.update_rel (h : C.Calls call other) (dict : Ref) (source : Value) :
    C.rel (update call dict source) (update other dict source) := by
  unfold update
  split
  next r =>
    refine C.bind (C.tame .heap) fun heap => ?_
    split
    next keys =>
      refine C.bind (h _ _ _) fun v => C.bind (C.tame (.lift v.iterate_compileFree)) fun items => ?_
      split
      next => exact C.pure _
      next => exact C.tame (.defect _)
    next => exact C.tame (.defect _)
  next r =>
    exact C.tame (.bind .heap fun heap => .bind .heap fun heap =>
      .bind (.lift (.write _ _)) fun _ => .pure _)
  next v => exact C.tame (.lift (putAll_compileFree _ _))

theorem DictMethod.apply_rel (h : C.Calls call other) (method : Method) (dict : Ref)
    (args : List Value) : C.rel (apply call method dict args) (apply other method dict args) := by
  unfold apply
  split
  iterate 2 next => exact C.tame (.lift (get_compileFree _ _ _))
  iterate 2 next => exact C.tame (.lift (pop_compileFree _ _ _))
  iterate 2 next => exact C.tame (.lift (setDefault_compileFree _ _ _))
  next => exact C.pure _
  next => exact update_rel h _ _
  next => exact C.tame (.bind (.lift (.write _ _)) fun _ => .pure _)
  next => exact C.tame (.bind .heap fun heap => .lift (.newDict _))
  next => exact C.tame (.defect _)

theorem Method.applyKnown_rel (h : C.Calls call other) (method : Method) (receiver : Value)
    (args : List Value) :
    C.rel (method.applyKnown call receiver args) (method.applyKnown other receiver args) := by
  unfold applyKnown
  split
  next => exact C.tame (.lift (TextMethod.apply_compileFree _ _ _))
  next => exact C.tame (.lift (ListMethod.apply_compileFree _ _ _))
  next => exact C.tame (.lift (ListMethod.applyTuple_compileFree _ _ _))
  next => exact DictMethod.apply_rel h _ _ _
  next =>
    split
    next => exact C.pure _
    next => exact C.tame (.defect _)
  next =>
    split
    next => exact C.pure _
    next => exact C.tame (.defect _)
  next =>
    split
    next => exact C.tame (.lift (NumberMethod.apply_compileFree _ _))
    next => exact C.tame (.defect _)
  next => exact C.tame (.defect _)

theorem Method.apply_rel (h : C.Calls call other) (method : Method) (receiver : Value)
    (args : List Value) :
    C.rel (method.apply call receiver args) (method.apply other receiver args) := by
  unfold Method.apply
  split
  next => exact C.tame .unfinished
  next => exact applyKnown_rel h _ _ _

theorem callOnce_rel {activate activate' : Frame → Tree → Run Value} {run run' : Items.Visitor}
    (hactivate : ∀ frame body, C.rel (activate frame body) (activate' frame body))
    (h : C.Calls call other)
    (hrun : ∀ callback item args, C.rel (run callback item args) (run' callback item args))
    (steps : Nat) :
    C.Calls (callOnce activate call run steps) (callOnce activate' other run' steps) := by
  intro context callee args
  cases callee with
  | lambda id f => exact hactivate _ _
  | closure id params body locals scope host => exact hactivate _ _
  | bound id function receiver => exact h _ _ _
  | builtin f => exact Builtin.apply_rel hrun _ _ _
  | method id receiver method => exact Method.apply_rel h _ _ _
  | _ => exact C.tame (.defect _)

/-- A relation that is kept when both runs are put under one scope. -/
def Run.Stepwise.KeepsScopes (C : Stepwise) : Prop :=
  ∀ {α : Type} (scope : Option Ref) {act other : Run α}, C.rel act other →
    C.rel (withScope scope act) (withScope scope other)

theorem invokeMember_rel (hscopes : C.KeepsScopes) (h : C.Calls call other) (receiver : Value)
    (member : Member) (args : List Value) (scope : Option Ref) :
    C.rel (invokeMember call receiver member args scope)
      (invokeMember other receiver member args scope) := by
  unfold invokeMember
  split
  next => exact C.bind (C.tame (.report _)) fun _ => hscopes _ (h _ _ _)
  next =>
    split
    next => exact C.tame (.bind (.report _) fun _ => .pure _)
    next => exact C.tame (.invocation _ _ _)

theorem invoke_rel (hscopes : C.KeepsScopes) (h : C.Calls call other)
    (hcompiles : C.Compiles call other) (receiver spec : Value) (args : List Value)
    (scope : Option Ref) {host : Option Host} (hasks : C.Asks host) :
    C.rel (invoke call receiver spec args scope host)
      (invoke other receiver spec args scope host) := by
  unfold invoke
  split
  next => exact C.bind (C.tame (.report _)) fun _ => h _ _ _
  next =>
    split
    next =>
      refine hasks h receiver _ fun k found => ?_
      cases found with
      | some member => exact invokeMember_rel hscopes h _ _ _ _
      | none => exact hcompiles _ _ _ _ _
    next => exact C.tame (.invocation _ _ _)

end

/-- A relation that is kept by scopes, by compilations and by reading the state relates every call
to itself. -/
theorem call_rel {C : Congruence} (hscopes : C.KeepsScopes) (hscope : C.rel Run.scope Run.scope)
    (hasks : ∀ host, C.Asks host)
    (hcompiles : ∀ depth, C.Calls (StringLambda.call depth) (StringLambda.call depth) →
      C.Compiles (StringLambda.call depth) (StringLambda.call depth)) (depth : Nat) :
    C.Calls (StringLambda.call depth) (StringLambda.call depth) := by
  induction depth with
  | zero => exact fun context callee args => C.tame .unfinished
  | succ depth ih =>
      refine callOnce_rel (fun frame body => ?_) ih (fun callback item args => ?_) depth
      · exact hscopes _ (eval_rel ih (hasks _) body)
      · exact C.bind hscope fun scope =>
          invoke_rel hscopes ih (hcompiles depth ih) _ _ _ _ (hasks _)

end StringLambda
