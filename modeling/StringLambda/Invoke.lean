import StringLambda.Compile
import StringLambda.Member

namespace StringLambda

/-! Invocation: a specification is applied to a receiver. -/

def scopeNames (scope : Option Ref) : Act (List Key) :=
  match scope with
  | some r => do return ((← Act.heap).entries r).map (·.key)
  | none => pure []

def Stop.refusing (receiver : Value) (spec : String) : Stop → Stop
  | .fault (.source e) => .fault (.invocation (.neither receiver.type e) receiver (.text spec))
  | stop => stop

def compileSpec (receiver : Value) (spec : String) (scope : Option Ref) : Run (Nat × Lambda) := do
  Run.mapStop (.refusing receiver spec) (Run.compile spec (← scopeNames scope))

def invokeMember (call : Caller) (receiver : Value) (member : Member) (args : List Value)
    (scope : Option Ref) : Run Value := do
  if member.isCallable then
    Run.report (.invokingMember member.name)
    Run.withScope scope (call .plain member.value args)
  else if args.isEmpty then
    Run.report (.readingMember member.name)
    return member.value
  else Run.fault (.invocation (.extraArguments args.length) receiver (.text member.name))

/-- Applies a text to a receiver: the member of that name comes first, and a text that names no
member is a lambda. -/
def invokeText (call : Caller) (receiver : Value) (spec : String) (args : List Value)
    (scope : Option Ref) (host : Host) : Run Value := do
  match ← Member.find call host receiver spec with
  | some member => invokeMember call receiver member args scope
  | none =>
    let (id, f) ← compileSpec receiver spec scope
    Run.report (.invokingLambda f.form spec)
    call ⟨scope, some host⟩ (.lambda id f) (receiver :: args)

/-- Applies a specification to a receiver. A callable takes the receiver as its first argument. -/
def invoke (call : Caller) (receiver spec : Value) (args : List Value) (scope : Option Ref)
    (host : Option Host) : Run Value := do
  if spec.isCallable then
    Run.report (.invokingCallable spec)
    call .plain spec (receiver :: args)
  else
    match spec with
    | .text s => invokeText call receiver s args scope (← Run.hostOr host)
    | _ => Run.fault (.invocation (.unsuitable spec.type) receiver spec)

end StringLambda
