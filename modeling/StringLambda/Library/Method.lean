import StringLambda.Library.DictMethod
import StringLambda.Library.ListMethod
import StringLambda.Library.TextMethod

namespace StringLambda

/-! The methods of numbers and lambdas, and the application of any method. -/

namespace NumberMethod

def ratio (n : Number) : Act Value := do
  match n with
  | .int i => Act.newTuple [.ofInt i, .ofInt 1]
  | .float x =>
    let (num, den) ← Act.ofDefect (Number.ratio x)
    Act.newTuple [.ofInt num, .ofInt den]

def bitLength (i : Int) : Nat :=
  if i = 0 then 0 else i.natAbs.log2 + 1

def apply (method : Method) (n : Number) : Act Value :=
  match method, n with
  | .conjugate, n => pure (.number n)
  | .asIntegerRatio, n => ratio n
  | .bitLength, .int i => pure (.ofNat (bitLength i))
  | .isInteger, .float x => pure (.bool (Number.isWhole x))
  | _, _ => Act.defect .wrongKind

end NumberMethod

def Method.applyKnown (call : Caller) (method : Method) (receiver : Value) (args : List Value) :
    Run Value :=
  match receiver, receiver.numeric? with
  | .text s, _ => TextMethod.apply method s args
  | .list r, _ => ListMethod.apply method r args
  | .tuple r, _ => ListMethod.applyTuple method r args
  | .dict r, _ => DictMethod.apply call method r args
  | .lambda _ f, _ =>
    if method = .pretty ∧ args.isEmpty then pure (.text f.body.outline) else Act.defect .wrongKind
  | .complex re im, _ =>
    if method = .conjugate ∧ args.isEmpty then pure (.complex re (-im)) else Act.defect .wrongKind
  | _, some n => if args.isEmpty then NumberMethod.apply method n else Act.defect .wrongKind
  | _, none => Act.defect .wrongKind

def Method.apply (call : Caller) (method : Method) (receiver : Value) (args : List Value) :
    Run Value :=
  match method with
  | .other _ => throw .unfinished
  | method => method.applyKnown call receiver args

end StringLambda
