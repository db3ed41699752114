import StringLambda.Defect
import StringLambda.Heap

namespace StringLambda

/-! Truth, equality and order of values. Containers are compared by contents, to any depth; the fuel
bounds the nesting, and a container that holds itself has no more than the whole heap. -/

namespace Value

def equalPlain (a b : Value) : Bool :=
  match a, b with
  | .null, .null => true
  | .text s, .text t => s == t
  | .complex re im, .complex re' im' => re == re' && im == im'
  | .complex re im, b => im == 0 && (b.numeric?.map (·.equal (.float re))).getD false
  | a, .complex re im => im == 0 && (a.numeric?.map (·.equal (.float re))).getD false
  | .lambda _ f, .lambda _ g => f.source == g.source && f.params == g.params
  | .closure i .., .closure j .. => i == j
  | .bound i .., .bound j .. => i == j
  | .builtin f, .builtin g => f == g
  | .method _ r m, .method _ s n => r.same s && m == n
  | a, b =>
    match a.numeric?, b.numeric? with
    | some m, some n => m.equal n
    | _, _ => false

end Value

namespace Heap

/-- Every item of one list agrees with the item at its place in another list. -/
def agree (test : Value → Value → Bool) : List Value → List Value → Bool
  | [], [] => true
  | x :: xs, y :: ys => (x.same y || test x y) && agree test xs ys
  | _, _ => false

def equalAt (h : Heap) : Nat → Value → Value → Bool
  | 0, _, _ => false
  | n + 1, a, b =>
    match a, b with
    | .list r, .list s => agree (h.equalAt n) (h.items r) (h.items s)
    | .tuple r, .tuple s => agree (h.equalAt n) (h.items r) (h.items s)
    | .dict r, .dict s =>
      let xs := h.entries r
      let ys := h.entries s
      xs.length == ys.length && xs.all fun e =>
        match Entry.find? e.key ys with
        | some y => e.value.same y || h.equalAt n e.value y
        | none => false
    | .record r, .record s =>
      let xs := h.fields r
      let ys := h.fields s
      if r.isRecord && s.isRecord then
        xs.length == ys.length && xs.all fun (name, x) =>
          match ys.lookup name with
          | some y => x.same y || h.equalAt n x y
          | none => false
      else r.index == s.index
    | a, b => a.equalPlain b

def equal (h : Heap) (a b : Value) : Bool :=
  h.equalAt h.depth a b

/-- The same object, or an equal one: how a container looks for an item. -/
def matched (h : Heap) (a b : Value) : Bool :=
  a.same b || h.equal a b

/-- Equality without conversion: numbers compare by value, all else only within one type. -/
def strictEqual (h : Heap) (a b : Value) : Bool :=
  if a.isNumber && b.isNumber then h.equal a b else a.type == b.type && h.equal a b

/-- The first of two lists is less at the first place where they differ, or is shorter. -/
def lessItems (same : Value → Value → Bool) (less : Value → Value → Except Defect Bool) :
    List Value → List Value → Except Defect Bool
  | [], ys => .ok !ys.isEmpty
  | _ :: _, [] => .ok false
  | x :: xs, y :: ys => if same x y then lessItems same less xs ys else less x y

def lessAt (h : Heap) : Nat → Value → Value → Except Defect Bool
  | 0, _, _ => .error .endlessNesting
  | n + 1, a, b =>
    match a, b with
    | .text s, .text t => .ok (decide (s < t))
    | .list r, .list s => lessItems h.matched (h.lessAt n) (h.items r) (h.items s)
    | .tuple r, .tuple s => lessItems h.matched (h.lessAt n) (h.items r) (h.items s)
    | a, b =>
      match a.numeric?, b.numeric? with
      | some m, some n => .ok (m.less n)
      | _, _ => .error .wrongKind

/-- The order in which values are sorted; most pairs of types have none. -/
def less (h : Heap) (a b : Value) : Except Defect Bool :=
  h.lessAt h.depth a b

/-- What counts as true: everything but null, false, zero, NaN and empty texts and containers. -/
def truthy (h : Heap) : Value → Bool
  | .null => false
  | .bool b => b
  | .number (.int i) => i != 0
  | .number (.float x) => !(x.isNaN || x == 0)
  | .complex re im => !(re == 0 && im == 0)
  | .text s => !s.isEmpty
  | .list r | .tuple r => h.size r != 0
  | .dict r => !(h.entries r).isEmpty
  | _ => true

end Heap

end StringLambda
