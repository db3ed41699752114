import StringLambda.Heap.Compare
import StringLambda.Heap.Display
import StringLambda.Invoke
import StringLambda.Library.Argument
import StringLambda.Slice

namespace StringLambda

/-! The members of lists, and those that tuples and dictionaries share with them. -/

namespace Items

/-- Carries a state through the items of a list from a position on, until a visit is the last one.
A visit sees what the visits before it have done to the list, also to the positions ahead. The
bound on the visits counts against a list that grows under them without end. -/
def visitFrom {σ : Type} (list : Ref) (visit : σ → Value → Run (ForInStep σ)) :
    Nat → Nat → σ → Run σ
  | 0, _, _ => throw .unfinished
  | steps + 1, i, state => do
    match (← Run.heap).item? list i with
    | none => return state
    | some item =>
      match ← visit state item with
      | .done state => return state
      | .yield state => visitFrom list visit steps (i + 1) state

/-- A way to apply a callback to an item and further arguments. -/
abbrev Visitor := Value → Value → List Value → Run Value

def runCallback (call : Caller) : Visitor := fun callback item args => do
  invoke call item callback args (← Run.scope) none

section

variable (run : Visitor) (steps : Nat) (list : Ref) (callback : Value)

def accepts (item : Value) : Run Bool := do
  let v ← run callback item []
  return (← Run.heap).truthy v

def map : Run Value := do
  let results ← visitFrom list (fun done item => do
    return .yield ((← run callback item []) :: done)) steps 0 []
  Run.newList results.reverse

def filter : Run Value := do
  let kept ← visitFrom list (fun kept item => do
    return .yield (if ← accepts run callback item then item :: kept else kept)) steps 0 []
  Run.newList kept.reverse

def reduceFrom (i : Nat) (start : Value) : Run Value :=
  visitFrom list (fun soFar item => do
    return .yield (← run callback soFar [item])) steps i start

def reduce (start : Option Value) : Run Value := do
  match start, (← Run.heap).item? list 0 with
  | some v, _ => reduceFrom run steps list callback 0 v
  | none, some v => reduceFrom run steps list callback 1 v
  | none, none => Run.raise .emptyReduce

def forEach : Run Value := do
  visitFrom list (fun _ item => do
    let _ ← run callback item []
    return .yield ()) steps 0 ()
  return .null

def firstItem? (answer : Bool) : Run (Option Value) :=
  visitFrom list (fun _ item => do
    if (← accepts run callback item) == answer then return .done (some item)
    else return .yield none) steps 0 none

end

/-- Takes the last item off a list; an empty list gives null. -/
def pop (list : Ref) : Act Value := do
  match (← Act.heap).item? list ((← Act.heap).size list - 1) with
  | none => return .null
  | some v =>
    Act.modifyList list (·.pop)
    return v

/-- Takes the first item off a list; an empty list gives null. -/
def shift (list : Ref) : Act Value := do
  match (← Act.heap).item? list 0 with
  | none => return .null
  | some v =>
    Act.modifyList list fun items => items.extract 1 items.size
    return v

/-- Puts items at the end of a list and gives the number of items then. -/
def push (list : Ref) (args : List Value) : Act Value := do
  Act.modifyList list (· ++ args)
  return .ofNat ((← Act.heap).size list)

/-- Puts items at the start of a list and gives the number of items then. -/
def unshift (list : Ref) (args : List Value) : Act Value := do
  Act.setItems list (args ++ (← Act.heap).items list)
  return .ofNat ((← Act.heap).size list)

def reverse (list : Ref) : Act Unit := do
  Act.setItems list ((← Act.heap).items list).reverse

/-- The texts of the items between separators, null items empty. -/
def join (h : Heap) (separator : String) (items : List Value) : Except Defect String := do
  let texts ← items.mapM fun
    | .null => .ok ""
    | v => h.text v
  return separator.intercalate texts

/-- The items of a list with other items and the items of other lists and tuples behind them. -/
def concat (h : Heap) (items others : List Value) : List Value :=
  items ++ others.flatMap fun
    | .list r | .tuple r => h.items r
    | v => [v]

def indexOf (h : Heap) (items : List Value) (v : Value) : Int :=
  match items.findIdx? (h.equal · v) with
  | some i => i
  | none => -1

end Items

namespace SequenceMember

def read (member : SequenceMember) (list : Ref) (args : List Value) : Act Value := do
  let heap ← Act.heap
  let items := heap.items list
  let first := argument args 0 .null
  match member with
  | .concat => Act.newList (Items.concat heap items args)
  | .slice =>
    let start ← (argument args 0 (.ofInt 0)).asCount "slice"
    let stop ← (argument args 1 .null).asCount? "slice"
    Act.newList (StringLambda.slice start stop items)
  | .join =>
    let separator ← (argument args 0 (.text ",")).asText "join"
    return .text (← Act.ofDefect (Items.join heap separator items))
  | .indexOf => return .ofInt (Items.indexOf heap items first)
  | .includes => return .bool (items.any (heap.matched · first))
  | _ => return .ofNat (heap.size list)

def applyList (run : Items.Visitor) (steps : Nat) (member : SequenceMember) (receiver : Value)
    (list : Ref) (args : List Value) : Run Value := do
  let callback := argument args 0 .null
  match member with
  | .push => Items.push list args
  | .pop => Items.pop list
  | .shift => Items.shift list
  | .unshift => Items.unshift list args
  | .reverse =>
    Items.reverse list
    return receiver
  | .map => Items.map run steps list callback
  | .filter => Items.filter run steps list callback
  | .reduce => Items.reduce run steps list callback args[1]?
  | .forEach => Items.forEach run steps list callback
  | .some => return .bool (← Items.firstItem? run steps list callback true).isSome
  | .every => return .bool (← Items.firstItem? run steps list callback false).isNone
  | .find => return (← Items.firstItem? run steps list callback true).getD .null
  | member => member.read list args

def apply (run : Items.Visitor) (steps : Nat) (member : SequenceMember) (receiver : Value)
    (args : List Value) : Run Value := do
  match receiver with
  | .list r => member.applyList run steps receiver r args
  | .tuple r =>
    if ofTuples.contains member then member.read r args else Run.defect .wrongKind
  | .dict r =>
    if member = .length then return .ofNat ((← Run.heap).entries r).length
    else Run.defect .wrongKind
  | _ => Run.defect .wrongKind

end SequenceMember

end StringLambda
