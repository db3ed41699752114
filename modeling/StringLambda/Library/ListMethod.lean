import StringLambda.Builtin
import StringLambda.Heap.Compare
import StringLambda.Library.Argument
import StringLambda.Slice
import StringLambda.Sorting

namespace StringLambda

/-! The methods that lists and tuples have by themselves. -/

namespace ListMethod

/-- The place of the first item, between bounds, that is a value or equals it. -/
def findPlace (h : Heap) (items : List Value) (v : Value) (start stop : Int) : Option Nat :=
  let first := clipPosition items.length start
  ((slice start (some stop) items).findIdx? (h.matched · v)).map (· + first)

/-- The place of a value; the optional bounds have to be integers. -/
def index (items : List Value) (v : Value) (bounds : List Value) : Act Value := do
  let start ← (argument bounds 0 (.ofInt 0)).asInteger
  let stop ← (argument bounds 1 (.ofInt Number.countLimit)).asInteger
  match findPlace (← Act.heap) items v start stop with
  | some i => return .ofNat i
  | none => Act.defect .wrongValue

def count (h : Heap) (items : List Value) (v : Value) : Nat :=
  items.countP (h.matched · v)

/-- Sorts a list in place. The list is empty as long as its items are compared. If the order fails,
it stays as far as it has been sorted. -/
def sort (list : Ref) : Act Value := do
  let heap ← Act.heap
  let (sorted, stop) := sortBy (heap.write list (.list #[])).less (heap.items list)
  Act.setItems list sorted
  match stop with
  | some d => Act.defect d
  | none => return .null

def remove (list : Ref) (items : List Value) (v : Value) : Act Value := do
  match items.findIdx? ((← Act.heap).matched · v) with
  | some i =>
    Act.setItems list (items.eraseIdx i)
    return .null
  | none => Act.defect .wrongValue

def insert (list : Ref) (items : List Value) (position v : Value) : Act Value := do
  let i := clipPosition items.length (← position.asSize)
  Act.setItems list (items.take i ++ v :: items.drop i)
  return .null

def apply (method : Method) (list : Ref) (args : List Value) : Act Value := do
  let heap ← Act.heap
  let items := heap.items list
  match method, args with
  | .append, [v] =>
    Act.modifyList list (·.push v)
    return .null
  | .extend, [v] =>
    Act.setItems list (items ++ (← v.iterate))
    return .null
  | .insert, [position, v] => insert list items position v
  | .remove, [v] => remove list items v
  | .index, v :: bounds =>
    if 2 < bounds.length then Act.defect .wrongKind else index items v bounds
  | .count, [v] => return .ofNat (count heap items v)
  | .sort, [] => sort list
  | .clear, [] =>
    Act.setItems list []
    return .null
  | .copy, [] => Act.newList items
  | _, _ => Act.defect .wrongKind

def applyTuple (method : Method) (tuple : Ref) (args : List Value) : Act Value := do
  match method with
  | .index | .count => apply method tuple args
  | _ => Act.defect .wrongKind

end ListMethod

end StringLambda
