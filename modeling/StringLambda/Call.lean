import StringLambda.Evaluate
import StringLambda.Library.Global
import StringLambda.Library.Method
import StringLambda.Library.Number
import StringLambda.Library.Sequence
import StringLambda.Library.Text

namespace StringLambda

/-! Calls. The bound on nested calls also bounds the visits of one loop over a list. -/

/-- How many arguments a function of the library takes, the receiver of a member not counted. -/
def Builtin.arity : Builtin → Arity
  | .text m => m.arity
  | .sequence m => m.arity
  | .number m => m.arity
  | .global f => f.arity

/-- A function of the library; a member takes its receiver first. -/
def Builtin.apply (run : Items.Visitor) (steps : Nat) (function : Builtin) (args : List Value) :
    Run Value :=
  match function, args with
  | .global f, args => if f.arity.admits args.length then f.apply args else Run.defect .wrongKind
  | f, receiver :: args =>
    if f.arity.admits args.length then
      match f, receiver with
      | .text m, .text s => m.apply s args
      | .sequence m, receiver => m.apply run steps receiver args
      | .number m, receiver => m.apply receiver args
      | _, _ => Run.defect .wrongKind
    else Run.defect .wrongKind
  | _, [] => Run.defect .wrongKind

/-- One call, by the way a body is run in a new activation, the way to make further calls and the
way to run callbacks. A lambda is evaluated under the scope and the host that it is called with, a
nested lambda under those that it was made with. -/
def callOnce (activate : Frame → Tree → Run Value) (call : Caller) (run : Items.Visitor)
    (steps : Nat) : Caller := fun context callee args =>
  match callee with
  | .lambda _ f => activate ⟨Frame.bind f.params args, context.scope, context.host⟩ f.body
  | .closure _ params body locals scope host =>
    activate ⟨Frame.bind params args ++ locals, scope, host⟩ body
  | .bound _ function receiver => call .plain function (receiver :: args)
  | .builtin f => f.apply run steps args
  | .method _ receiver method => method.apply call receiver args
  | _ => Run.defect .wrongKind

/-- Calls a value. An activation puts its scope in place for the callbacks that members run. -/
def call : Nat → Caller
  | 0 => fun _ _ _ => throw .unfinished
  | depth + 1 =>
    callOnce (fun frame body => Run.withScope frame.scope (eval (call depth) frame body))
      (call depth) (Items.runCallback (call depth)) depth

theorem call_lambda (depth : Nat) (context : Context) (id : Nat) (f : Lambda) (args : List Value) :
    call (depth + 1) context (.lambda id f) args =
      Run.withScope context.scope
        (eval (call depth) ⟨Frame.bind f.params args, context.scope, context.host⟩ f.body) :=
  rfl

theorem call_closure (depth : Nat) (context : Context) (id : Nat) (params : List String)
    (body : Tree) (locals : List (String × Value)) (scope : Option Ref) (host : Option Host)
    (args : List Value) :
    call (depth + 1) context (.closure id params body locals scope host) args =
      Run.withScope scope
        (eval (call depth) ⟨Frame.bind params args ++ locals, scope, host⟩ body) :=
  rfl

/-- Calls a value under a scope and a host that are given for this call. Lambdas alone take them,
also as members that have been read off a receiver. -/
def callUnder (depth : Nat) (context : Context) : Value → List Value → Run Value
  | .bound _ function receiver, args => callUnder depth context function (receiver :: args)
  | .lambda id f, args => call depth context (.lambda id f) args
  | _, _ => Run.defect .wrongKind

/-- A bound on nested calls that no run reaches which ends at all within its resources. -/
def callLimit : Nat := Nat.pow 10 9

end StringLambda
