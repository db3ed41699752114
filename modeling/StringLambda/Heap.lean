import StringLambda.Value

namespace StringLambda

/-! The heap: lists, tuples, dictionaries and records, each at a place of its own. -/

/-- What tells dictionary keys apart: equal values have one key, and mutable containers have
none. -/
inductive Key where
  | null
  /-- A truth value as an object; as a key it is an integer. -/
  | truth (b : Bool)
  | int (i : Int)
  /-- A float that is no integer, by its bit pattern. -/
  | float (bits : Nat)
  /-- NaN before it is a key of anything: it is equal to no key, so that no key is stored as it. -/
  | nan
  | complex (re im : Nat)
  | text (s : String)
  /-- The empty tuple, and a tuple by its first item and the others. -/
  | empty
  | cons (first others : Key)
  /-- A lambda: the source and the parameters settle the form and the body. -/
  | lambda (source : String) (params : List String)
  /-- A function that is equal to itself alone. -/
  | object (id : Nat)
  /-- A lambda as an object; as a key it is the lambda that it was compiled to. -/
  | compiled (id : Nat)
  | container (index : Nat)
  | builtin (function : Builtin)
  | method (receiver : Key) (method : Method)
deriving DecidableEq, Ord

/-- An entry of a dictionary, with its key as it was first written. -/
structure Entry where
  key : Key
  label : Value
  value : Value

inductive Cell where
  | list (items : Array Value)
  | tuple (items : List Value)
  | dict (entries : List Entry)
  | record (fields : List (String × Value))

structure Heap where
  cells : Array Cell
  /-- The most bytes that a text may take. -/
  capacity : Nat := Nat.pow 2 63 - 1

namespace Heap

def empty : Heap := { cells := #[] }

def cell? (h : Heap) (r : Ref) : Option Cell :=
  h.cells[r.index]?

def alloc (h : Heap) (c : Cell) : Ref × Heap :=
  (⟨h.cells.size, none⟩, { h with cells := h.cells.push c })

def write (h : Heap) (r : Ref) (c : Cell) : Heap :=
  { h with cells := h.cells.setIfInBounds r.index c }

def items (h : Heap) (r : Ref) : List Value :=
  match h.cell? r with
  | some (.list xs) => xs.toList
  | some (.tuple xs) => xs
  | _ => []

def item? (h : Heap) (r : Ref) (i : Nat) : Option Value :=
  match h.cell? r with
  | some (.list xs) => xs[i]?
  | some (.tuple xs) => xs[i]?
  | _ => none

def size (h : Heap) (r : Ref) : Nat :=
  match h.cell? r with
  | some (.list xs) => xs.size
  | some (.tuple xs) => xs.length
  | _ => 0

def modifyList (h : Heap) (r : Ref) (f : Array Value → Array Value) : Heap :=
  { h with cells := h.cells.modify r.index fun
      | .list xs => .list (f xs)
      | c => c }

def entries (h : Heap) (r : Ref) : List Entry :=
  match h.cell? r with
  | some (.dict es) => es
  | _ => []

def fields (h : Heap) (r : Ref) : List (String × Value) :=
  match h.cell? r with
  | some (.record fs) => fs
  | _ => []

@[simp] theorem cell?_write_self (h : Heap) (r : Ref) (c : Cell) (hr : r.index < h.cells.size) :
    (h.write r c).cell? r = some c := by
  simp [cell?, write, hr]

theorem cell?_write_of_ne (h : Heap) {r s : Ref} (c : Cell) (hne : r.index ≠ s.index) :
    (h.write r c).cell? s = h.cell? s := by
  simp [cell?, write, hne]

theorem cell?_alloc_of_lt (h : Heap) (c : Cell) {r : Ref} (hr : r.index < h.cells.size) :
    (h.alloc c).2.cell? r = h.cell? r := by
  simp [cell?, alloc, Array.getElem?_push, Nat.ne_of_lt hr]

@[simp] theorem cell?_alloc_self (h : Heap) (c : Cell) :
    (h.alloc c).2.cell? (h.alloc c).1 = some c := by
  simp [cell?, alloc]

theorem item?_eq_getElem? (h : Heap) (r : Ref) (i : Nat) : h.item? r i = (h.items r)[i]? := by
  simp only [item?, items]
  split <;> simp_all

theorem size_eq_length (h : Heap) (r : Ref) : h.size r = (h.items r).length := by
  simp only [size, items]
  split <;> simp_all

theorem cell?_modifyList_of_ne (h : Heap) {r s : Ref} (f : Array Value → Array Value)
    (hne : r.index ≠ s.index) : (h.modifyList r f).cell? s = h.cell? s := by
  simp [cell?, modifyList, Array.getElem?_modify, hne]

/-- A walk along references that repeats none of them has fewer steps than this. -/
def depth (h : Heap) : Nat :=
  h.cells.size + 1

end Heap

namespace Key

def ofFloat (x : Float) : Key :=
  match Dyadic.ofFloat? x with
  | some d => if d.isInteger then .int d.truncate else .float x.toBits.toNat
  | none => if x.isNaN then .nan else .float x.toBits.toNat

def ofNumber : Number → Key
  | .int i => .int i
  | .float x => ofFloat x

def ofComplex (re im : Float) : Key :=
  if im == 0 then ofFloat re else .complex re.toBits.toNat im.toBits.toNat

def ofItems : List Key → Key
  | [] => .empty
  | k :: ks => .cons k (ofItems ks)

/-- The key as it is stored: each NaN in it is an object of its own. -/
def stored (id : Nat) : Key → Key
  | .nan => .object id
  | .cons first others => .cons (first.stored id) (others.stored id)
  | k => k

end Key

def Value.identity : Value → Key
  | .null => .null
  | .bool b => .truth b
  | .number (.int i) => .int i
  | .number (.float x) => .float x.toBits.toNat
  | .complex re im => .complex re.toBits.toNat im.toBits.toNat
  | .text s => .text s
  | .list r | .tuple r | .dict r | .record r => .container r.index
  | .lambda id _ => .compiled id
  | .closure id .. => .object id
  | .bound id .. => .object id
  | .builtin f => .builtin f
  | .method id .. => .object id

def Value.same (a b : Value) : Bool :=
  a.identity == b.identity

namespace Heap

/-- The key of a value that can be one; the fuel bounds the nesting of tuples. -/
def keyAt? (h : Heap) : Nat → Value → Option Key
  | 0, _ => none
  | n + 1, v =>
    match v with
    | .null => some .null
    | .bool b => some (.int (if b then 1 else 0))
    | .number x => some (.ofNumber x)
    | .complex re im => some (.ofComplex re im)
    | .text s => some (.text s)
    | .tuple r => ((h.items r).mapM (h.keyAt? n)).map .ofItems
    | .list _ | .dict _ => none
    | .record r => if r.isRecord then none else some v.identity
    | .lambda _ f => some (.lambda f.source f.params)
    | .method _ receiver m => some (.method receiver.identity m)
    | v => some v.identity

def key? (h : Heap) (v : Value) : Option Key :=
  h.keyAt? h.depth v

end Heap

namespace Entry

def find? (k : Key) (es : List Entry) : Option Value :=
  (es.find? (·.key == k)).map (·.value)

/-- Binds a key: in its old place if it has one, at the end otherwise. -/
def put (k : Key) (label value : Value) : List Entry → List Entry
  | [] => [⟨k, label, value⟩]
  | e :: es => if e.key = k then { e with value } :: es else e :: put k label value es

def erase (k : Key) (es : List Entry) : List Entry :=
  es.filter (·.key != k)

end Entry

end StringLambda
