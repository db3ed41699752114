import StringLambda.Builtin
import StringLambda.Library.Argument
import StringLambda.Member

namespace StringLambda

/-! The methods that dictionaries have by themselves. -/

namespace DictMethod

def asKey (v : Value) : Act Key := do
  match (← Act.heap).key? v with
  | some k => return k
  | none => Act.defect .wrongKind

def asStoredKey (v : Value) : Act Key := do
  return (← asKey v).stored (← Act.freshId)

def put (dict : Ref) (label value : Value) : Act Unit := do
  let k ← asStoredKey label
  Act.write dict (.dict (Entry.put k label value ((← Act.heap).entries dict)))

def putPair (dict : Ref) (pair : Value) : Act Unit := do
  match ← pair.iterate with
  | [label, value] => put dict label value
  | _ => Act.defect .wrongValue

def putAll (dict : Ref) (pairs : Value) : Act Value := do
  (← pairs.iterate).forM (putPair dict)
  return .null

/-- Takes over the entries of a record that tells its keys. A record has no entries, so that there
must not be any keys. -/
def updateFromRecord (call : Caller) (keys : Value) : Run Value := do
  if (← (← call .plain keys []).iterate).isEmpty then return .null else Run.defect .wrongKind

def update (call : Caller) (dict : Ref) (source : Value) : Run Value := do
  match source with
  | .record r =>
    match ((← Run.heap).fields r).lookup "keys" with
    | some keys => updateFromRecord call keys
    | none => Run.defect .wrongKind
  | .dict r =>
    let others := (← Run.heap).entries r
    let all := others.foldl (fun es e => Entry.put e.key e.label e.value es)
      ((← Run.heap).entries dict)
    Act.write dict (.dict all)
    return .null
  | v => putAll dict v

def get (dict : Ref) (label otherwise : Value) : Act Value := do
  let k ← asKey label
  return (Entry.find? k ((← Act.heap).entries dict)).getD otherwise

/-- Removes a key and gives its value. An empty dictionary does not look at the key. -/
def pop (dict : Ref) (label : Value) (otherwise : Option Value) : Act Value := do
  let entries := (← Act.heap).entries dict
  let missing : Act Value := match otherwise with
    | some v => pure v
    | none => Act.defect .missingKey
  if entries.isEmpty then missing
  else
    let k ← asKey label
    match Entry.find? k entries with
    | some v =>
      Act.write dict (.dict (Entry.erase k entries))
      return v
    | none => missing

/-- The value of a key, which is bound to a value first if it is not bound yet. -/
def setDefault (dict : Ref) (label value : Value) : Act Value := do
  let k ← asKey label
  match Entry.find? k ((← Act.heap).entries dict) with
  | some v => return v
  | none =>
    put dict label value
    return value

def apply (call : Caller) (method : Method) (dict : Ref) (args : List Value) : Run Value := do
  match method, args with
  | .get, [label] => get dict label .null
  | .get, [label, otherwise] => get dict label otherwise
  | .pop, [label] => pop dict label none
  | .pop, [label, otherwise] => pop dict label (some otherwise)
  | .setdefault, [label] => setDefault dict label .null
  | .setdefault, [label, value] => setDefault dict label value
  | .update, [] => return .null
  | .update, [source] => update call dict source
  | .clear, [] =>
    Act.write dict (.dict [])
    return .null
  | .copy, [] => Act.newDict ((← Act.heap).entries dict)
  | _, _ => Act.defect .wrongKind

end DictMethod

end StringLambda
