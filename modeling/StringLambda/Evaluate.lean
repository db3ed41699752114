import StringLambda.Member
import StringLambda.Number.Reading
import StringLambda.Operator

namespace StringLambda

/-! Evaluation of trees. Calls are left to a caller, so that evaluation itself follows the tree. -/

/-- The bindings of one activation. Names that are not bound locally are looked up in the scope and
then among the globals. -/
structure Frame where
  locals : List (String × Value)
  scope : Option Ref
  host : Option Host

namespace Frame

/-- Parameters bound to arguments by place: missing arguments are null, and the last of equal names
counts. -/
def bind (params : List String) (args : List Value) : List (String × Value) :=
  (params.zip (args ++ List.replicate params.length .null)).reverse

def scopeEntries (scope : Option Ref) : Act (List Entry) :=
  match scope with
  | some r => do return (← Act.heap).entries r
  | none => pure []

def get (frame : Frame) (name : String) : Run Value := do
  match frame.locals.lookup name with
  | some v => return v
  | none =>
    match Entry.find? (.text name) (← scopeEntries frame.scope) with
    | some v => return v
    | none =>
      match ← Run.global? name with
      | some v => return v
      | none => Run.raise (.unresolvedName name)

end Frame

def escapedChar (c : Char) : Char :=
  match c with
  | 'n' => '\n'
  | 't' => '\t'
  | 'r' => '\r'
  | 'b' => Char.ofNat 8
  | 'f' => Char.ofNat 12
  | 'v' => Char.ofNat 11
  | '0' => Char.ofNat 0
  | c => c

def hexChar? (width : Nat) (cs : List Char) : Option Char :=
  let ds := (cs.take width).filterMap digitValue?
  if (cs.take width).length = width ∧ ds.length = width ∧ ds.all (· < 16) then
    some (Char.ofNat (digitsValue 16 0 ds))
  else none

/-- The text with its escapes resolved; `skip` characters belong to an escape already read. -/
def unescapeFrom (skip : Nat) : List Char → List Char
  | [] => []
  | c :: cs =>
    match skip with
    | skip + 1 => unescapeFrom skip cs
    | 0 =>
      if c ≠ '\\' then c :: unescapeFrom 0 cs
      else
        match cs with
        | [] => [c]
        | e :: rest =>
          let code := if e = 'u' then hexChar? 4 rest else if e = 'x' then hexChar? 2 rest else none
          match code with
          | some d => d :: unescapeFrom (if e = 'u' then 5 else 3) cs
          | none => escapedChar e :: unescapeFrom 1 cs

/-- The contents of a quoted text; a text that is not between equal quotes stands for itself. -/
def unquote (cs : List Char) : List Char :=
  match cs with
  | q :: rest =>
    if (q = '"' ∨ q = '\'') ∧ rest.getLast? = some q then rest.dropLast else cs
  | [] => []

def stringValue (literal : String) : String :=
  String.ofList (unescapeFrom 0 (unquote literal.toList))

def numberValue (literal : String) : Act Value :=
  match Number.read? literal.toList with
  | some n => pure (.number n)
  | none => Act.defect .wrongValue

def parameterTexts : List Tree → Act (List String)
  | [] => pure []
  | .leaf _ text :: ts => do return text :: (← parameterTexts ts)
  | .node .. :: _ => Act.defect .missingPart

def operatorText : Tree → Act String
  | .leaf .op text => pure text
  | t => Act.raise (.expectedOperator t.describe)

def evalLeaf (frame : Frame) (kind : LeafKind) (text : String) : Run Value :=
  match kind with
  | .number => numberValue text
  | .string => pure (.text (stringValue text))
  | .true => pure (.bool true)
  | .false => pure (.bool false)
  | .null | .undefined => pure .null
  | .ident => frame.get text
  | kind => Run.raise (.unhandledToken kind.text text)

def requireMember (call : Caller) (frame : Frame) (receiver : Value) (name : String) :
    Run Member := do
  match ← Member.find call (← Run.hostOr frame.host) receiver name with
  | some member => return member
  | none => Run.raise (.memberNotFound receiver.type name)

def readField (call : Caller) (frame : Frame) (receiver : Value) (name : String) : Run Value := do
  return (← requireMember call frame receiver name).value

def callMember (call : Caller) (frame : Frame) (receiver : Value) (name : String)
    (args : List Value) : Run Value := do
  let member ← requireMember call frame receiver name
  if member.isCallable then call .plain member.value args
  else Run.raise (.memberNotCallable name receiver.typeName)

def callValue (call : Caller) (callee : Value) (args : List Value) : Run Value :=
  if callee.isCallable then call .plain callee args
  else Run.raise (.notCallable callee.typeName)

def makeClosure (frame : Frame) (params : Tree) (body : Tree) : Run Value := do
  let names ← parameterTexts params.children
  return .closure (← Run.freshId) names body frame.locals frame.scope frame.host

mutual

/-- The value of a tree. An error is placed at the innermost node around it that has a place. -/
def eval (call : Caller) (frame : Frame) : Tree → Run Value
  | .leaf kind text => evalLeaf frame kind text
  | .node label place children => Run.located place <|
    match label, children with
    | .ternary, [condition, yes, no] => do
      let v ← eval call frame condition
      if (← Run.heap).truthy v then eval call frame yes else eval call frame no
    | .ternary, _ => Run.raise .malformedTernary
    | .nullish, [left, right] => do
      match ← eval call frame left with
      | .null => eval call frame right
      | v => return v
    | .or, [left, right] => do
      let v ← eval call frame left
      if (← Run.heap).truthy v then return v else eval call frame right
    | .and, [left, right] => do
      let v ← eval call frame left
      if (← Run.heap).truthy v then eval call frame right else return v
    | .compare, [left, op, right] => do
      let op ← operatorText op
      let a ← eval call frame left
      let b ← eval call frame right
      Value.comparison op a b
    | .add, [left, op, right] | .mul, [left, op, right] | .pow, [left, op, right] => do
      let op ← operatorText op
      let a ← eval call frame left
      let b ← eval call frame right
      Value.binary op a b
    | .unary, [op, operand] => do
      let op ← operatorText op
      Value.signed op (← eval call frame operand)
    | .chain, head :: steps => do
      evalSteps call frame (← eval call frame head) steps
    | .array, elements => do
      Run.newList (← evalAll call frame elements)
    | .arrow, [params, body] => makeClosure frame params body
    | label, _ =>
      if label.isExpression then Run.defect .wrongValue
      else Run.raise (.unsupportedNode label.text)

def evalAll (call : Caller) (frame : Frame) : List Tree → Run (List Value)
  | [] => pure []
  | t :: ts => do
    let v ← eval call frame t
    return v :: (← evalAll call frame ts)

def evalSteps (call : Caller) (frame : Frame) (receiver : Value) : List Tree → Run Value
  | [] => pure receiver
  | step :: steps => do
    evalSteps call frame (← evalStep call frame receiver step) steps

def evalStep (call : Caller) (frame : Frame) (receiver : Value) : Tree → Run Value
  | .leaf _ _ => Run.defect .missingPart
  | .node label _ children => evalStepParts call frame receiver label children

/-- One step of a chain: a member read, a member call, an index or a call. -/
def evalStepParts (call : Caller) (frame : Frame) (receiver : Value) :
    Label → List Tree → Run Value
  | .field, name :: _ => readField call frame receiver name.written
  | .method, [name, args] => do
    callMember call frame receiver name.written (← evalArgs call frame args)
  | .method, _ => Run.defect .wrongValue
  | .index, i :: _ => do
    receiver.index (← eval call frame i)
  | .call, args :: _ => do
    callValue call receiver (← evalArgs call frame args)
  | .field, [] | .index, [] | .call, [] => Run.defect .missingIndex
  | label, _ => Run.raise (.unknownStep label.text)

def evalArgs (call : Caller) (frame : Frame) : Tree → Run (List Value)
  | .leaf _ _ => pure []
  | .node _ _ children => evalAll call frame children

end

theorem eval_leaf (call : Caller) (frame : Frame) (kind : LeafKind) (text : String) :
    eval call frame (.leaf kind text) = evalLeaf frame kind text := by
  rw [eval]

end StringLambda
