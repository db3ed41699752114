import StringLambda.Act
import StringLambda.Heap.Compare
import StringLambda.Heap.Display
import StringLambda.Slice
import StringLambda.Text.Search

namespace StringLambda

/-! The operators on values, and indexing. -/

inductive Operator where
  | add | subtract | multiply | divide | remainder | power
deriving DecidableEq

namespace Operator

def all : List Operator := [.add, .subtract, .multiply, .divide, .remainder, .power]

def text : Operator → String
  | .add => "+" | .subtract => "-" | .multiply => "*" | .divide => "/" | .remainder => "%"
  | .power => "**"

def ofText? (s : String) : Option Operator :=
  all.find? (·.text == s)

end Operator

inductive Comparator where
  | equal | unequal | strictEqual | strictUnequal | less | lessEqual | greater | greaterEqual
  | member
deriving DecidableEq

namespace Comparator

def all : List Comparator := [
  .equal, .unequal, .strictEqual, .strictUnequal, .less, .lessEqual, .greater, .greaterEqual,
  .member]

def text : Comparator → String
  | .equal => "==" | .unequal => "!=" | .strictEqual => "===" | .strictUnequal => "!=="
  | .less => "<" | .lessEqual => "<=" | .greater => ">" | .greaterEqual => ">=" | .member => "in"

def ofText? (s : String) : Option Comparator :=
  all.find? (·.text == s)

/-- Whether an order of the operands, if they have one, meets an ordering operator. -/
def admits : Comparator → Option Ordering → Bool
  | .less, some .lt => true
  | .lessEqual, some .lt | .lessEqual, some .eq => true
  | .greater, some .gt => true
  | .greaterEqual, some .gt | .greaterEqual, some .eq => true
  | _, _ => false

end Comparator

namespace Value

/-- The number that an operand is; truth values are none. -/
def asOperand (op : String) (v : Value) : Act Number :=
  match v.number? with
  | some n => pure n
  | none => Act.raise (.operandNotNumber op v.type)

def ofPower : Number.Power → Value
  | .real n => .number n
  | .complex re im => .complex re im

def arithmetic (op : Operator) (a b : Number) : Act Value :=
  match op with
  | .add => do return .number (← Act.ofDefect (a.add b))
  | .subtract => do return .number (← Act.ofDefect (a.sub b))
  | .multiply => do return .number (← Act.ofDefect (a.mul b))
  | .divide =>
    if b.isZero then Act.raise .divisionByZero
    else do return .number (← Act.ofDefect (a.div b))
  | .remainder =>
    if b.isZero then Act.raise .moduloByZero
    else do return .number (← Act.ofDefect (a.mod b))
  | .power => do return ofPower (← Act.ofDefect (a.pow b))

def isText : Value → Bool
  | .text _ => true
  | _ => false

/-- Addition joins texts if either operand is one, and appends lists; all else is arithmetic. -/
def applyOperator (op : Operator) (a b : Value) : Act Value := do
  if op = .add ∧ (a.isText || b.isText) then
    let heap ← Act.heap
    let left ← Act.ofDefect (heap.text a)
    let right ← Act.ofDefect (heap.text b)
    return .text (left ++ right)
  else
    match op, a, b with
    | .add, .list r, .list s => do
      let heap ← Act.heap
      Act.newList (heap.items r ++ heap.items s)
    | op, a, b => do
      let x ← a.asOperand op.text
      let y ← b.asOperand op.text
      arithmetic op x y

def binary (op : String) (a b : Value) : Act Value :=
  match Operator.ofText? op with
  | some op => applyOperator op a b
  | none => Act.raise (.unknownOperator op)

/-- Numbers have an order, and texts; no other pair of values has. -/
def ordered (op : Comparator) (a b : Value) : Act Bool :=
  match a, b with
  | .text s, .text t => pure (op.admits (some (compare s t)))
  | .number m, .number n => pure (op.admits (m.compare? n))
  | a, b => Act.raise (.notComparable a.typeName op.text b.typeName)

/-- Membership of an item, of a part of a text or of a key. -/
def membership (a b : Value) : Act Bool := do
  let heap ← Act.heap
  match a, b with
  | .text s, .text t => return Text.occurs s.toList t.toList
  | a, .list r => return (heap.items r).any (heap.matched · a)
  | a, .tuple r => return (heap.items r).any (heap.matched · a)
  | a, .dict r =>
    match heap.key? a with
    | some k => return (Entry.find? k (heap.entries r)).isSome
    | none => Act.raise (.notContainer b.typeName)
  | _, b => Act.raise (.notContainer b.typeName)

def applyComparator (op : Comparator) (a b : Value) : Act Bool := do
  match op with
  | .equal => return (← Act.heap).equal a b
  | .unequal => return !(← Act.heap).equal a b
  | .strictEqual => return (← Act.heap).strictEqual a b
  | .strictUnequal => return !(← Act.heap).strictEqual a b
  | .member => membership a b
  | op => ordered op a b

def comparison (op : String) (a b : Value) : Act Value :=
  match Comparator.ofText? op with
  | some op => do return .bool (← applyComparator op a b)
  | none => Act.raise (.unknownComparator op)

def signed (op : String) (v : Value) : Act Value :=
  match op with
  | "!" => do return .bool !((← Act.heap).truthy v)
  | "-" => do return .number (← v.asOperand "-").neg
  | "+" => do return .number (← v.asOperand "+")
  | op => Act.raise (.unsupportedUnary op)

def asIndex : Value → Value
  | .number (.float x) =>
    if Number.isWhole x then .ofInt (Number.toCount (.float x)) else .ofFloat x
  | v => v

def itemAt (h : Heap) (r : Ref) (i : Int) : Value :=
  ((positionIndex? (h.size r) i).bind (h.item? r)).getD .null

def charAt (s : String) (i : Int) : Value :=
  let cs := s.toList
  match (positionIndex? cs.length i).bind (cs[·]?) with
  | some c => .text c.toString
  | none => .null

/-- Reads an item by its position or an entry by its key; outside of the container lies null. -/
def index (v i : Value) : Act Value := do
  let i := i.asIndex
  let heap ← Act.heap
  let refuse : Act Value := Act.raise (.notIndexable v.typeName i.typeName)
  match v, i.integer? with
  | .text s, some i => return charAt s i
  | .list r, some i | .tuple r, some i => return itemAt heap r i
  | .dict r, _ =>
    match heap.key? i with
    | some k => return (Entry.find? k (heap.entries r)).getD .null
    | none => refuse
  | _, _ => refuse

end Value

end StringLambda
