import StringLambda.Heap.Compare
import StringLambda.Heap.Display
import StringLambda.Library.Argument
import StringLambda.Number.Modulus
import StringLambda.Number.Reading
import StringLambda.Sorting
import StringLambda.Text.Blank

namespace StringLambda

/-! The global functions. -/

namespace Number

/-- The number that a text denotes, or NaN. The empty text is zero. -/
def ofText (s : String) : Number :=
  let cs := (Text.trim s).toList
  if cs.isEmpty then .int 0
  else
    match readInt? 10 cs, readFloat? cs with
    | some i, _ => .int i
    | none, some x => .float x
    | none, none => .float Float64.nan

/-- The whole number at the start of a text in a radix, or NaN. -/
def parseWhole (radix : Int) (cs : List Char) : Number :=
  match leadingInt? radix cs with
  | some i => .int i
  | none => .float Float64.nan

/-- The decimal number at the start of a text, or NaN. -/
def parseDecimal (cs : List Char) : Number :=
  .float ((leadingFloat? cs).getD Float64.nan)

/-- Rounds by a direction; infinities and NaN stay as they are. -/
def roundBy (direction : Dyadic → Int) (n : Number) : Except Defect Number :=
  if n.isFinite then return .int (← n.toInt direction) else .ok n

/-- Rounds a half upward: the floor of the float that is greater by a half. -/
def roundHalfUp (n : Number) : Except Defect Number := do
  if n.isFinite then return .int (← (← n.add (.float 0.5)).toInt Dyadic.floor) else return n

/-- The square root, and NaN for what is not at least zero. -/
def root (n : Number) : Except Defect Number :=
  match n.compare? (.int 0) with
  | some .gt | some .eq => return .float (← n.toFloat).sqrt
  | _ => .ok (.float Float64.nan)

/-- A power by a power function of floats: infinite where it is too large, and NaN for a fraction of
a negative number. -/
def mathPower (power : Float → Float → Float) (base exponent : Number) : Number :=
  if base.isZero && exponent.isNegative then .float Float64.infinity
  else
    match realPower power base exponent with
    | .ok x => .float x
    | .error .overflow => .float Float64.infinity
    | .error _ => .float Float64.nan

end Number

namespace Value

/-- A value as a number: null is zero, and a text is what it denotes. -/
def toNumber (h : Heap) (v : Value) : Except Defect Number :=
  match v, v.numeric? with
  | .null, _ => .ok (.int 0)
  | _, some n => .ok n
  | v, none => do return .ofText (← h.plain v)

def size (v : Value) : Act Value := do
  let heap ← Act.heap
  match v with
  | .text s => return .ofNat s.length
  | .list r | .tuple r => return .ofNat (heap.size r)
  | .dict r => return .ofNat (heap.entries r).length
  | _ => Act.defect .wrongKind

/-- The candidates for the least or greatest: the arguments, or the items of a sole argument. -/
def candidates (args : List Value) : Act (List Value) :=
  match args with
  | [v] => v.iterate
  | vs => pure vs

def best (beats : Heap → Value → Value → Except Defect Bool) (args : List Value) : Act Value := do
  match ← candidates args with
  | [] => Act.defect .wrongValue
  | v :: vs => Act.ofDefect (bestOf (beats (← Act.heap)) v vs)

def sortItems (v : Value) : Act Value := do
  let items ← v.iterate
  match sortBy (← Act.heap).less items with
  | (sorted, none) => Act.newList sorted
  | (_, some d) => Act.defect d

def isComplex : Value → Bool
  | .complex .. => true
  | _ => false

def asComplex (v : Value) : Act (Float × Float) :=
  match v, v.numeric? with
  | .complex re im, _ => pure (re, im)
  | _, some n => return (← Act.ofDefect n.toFloat, 0)
  | _, none => Act.defect .wrongKind

def plus (a b : Value) : Act Value := do
  let heap ← Act.heap
  match a, b with
  | .list r, .list s => Act.newList (heap.items r ++ heap.items s)
  | .tuple r, .tuple s => Act.newTuple (heap.items r ++ heap.items s)
  | a, b =>
    match a.numeric?, b.numeric? with
    | some m, some n => return .number (← Act.ofDefect (m.add n))
    | _, _ =>
      if a.isComplex || b.isComplex then
        let (re, im) ← asComplex a
        let (re', im') ← asComplex b
        return .complex (re + re') (im + im')
      else Act.defect .wrongKind

/-- The sum of the items of a container and a start, which must not be a text. -/
def sum (v start : Value) : Act Value := do
  let items ← v.iterate
  match start with
  | .text _ => Act.defect .wrongKind
  | start => items.foldlM plus start

def absolute (v : Value) : Act Value :=
  match v, v.numeric? with
  | .complex re im, _ => return .ofFloat (← Act.ofDefect (Float64.modulus re im))
  | _, some n => pure (.number n.abs)
  | _, none => Act.defect .wrongKind

/-- Rounds to the nearest integer, or to a number of decimal places; a tie goes to the even side. -/
def round (v places : Value) : Act Value :=
  match v.numeric?, places with
  | none, _ => Act.defect .wrongKind
  | some n, .null => return .ofInt (← Act.ofDefect (n.toInt Number.nearestEven))
  | some n, places => do return .number (← Act.ofDefect (n.roundTo (← places.asInteger)))

/-- The argument of a function of the `Math` record. -/
def asMathArgument (function : String) (v : Value) : Act Number :=
  match v.number? with
  | some n => pure n
  | none => Act.raise (.mathArgument function)

end Value

def GlobalFunction.apply (function : GlobalFunction) (args : List Value) : Act Value := do
  let heap ← Act.heap
  let first := argument args 0 .null
  match function with
  | .text => return .text (← Act.ofDefect (heap.text first))
  | .number => return .number (← Act.ofDefect (first.toNumber heap))
  | .parseInt =>
    let radix ← (argument args 1 (.ofInt 10)).asCount "parseInt"
    return .number (.parseWhole radix (← Act.ofDefect (heap.text first)).toList)
  | .parseFloat => return .number (.parseDecimal (← Act.ofDefect (heap.text first)).toList)
  | .length => first.size
  | .absolute => first.absolute
  | .least => Value.best (fun heap v w => heap.less v w) args
  | .greatest => Value.best (fun heap v w => heap.less w v) args
  | .rounded => first.round (argument args 1 .null)
  | .total => first.sum (argument args 1 (.ofInt 0))
  | .sorted => first.sortItems
  | .floor =>
    return .number (← Act.ofDefect ((← first.asMathArgument "floor").roundBy Dyadic.floor))
  | .ceil =>
    return .number (← Act.ofDefect ((← first.asMathArgument "ceil").roundBy Dyadic.ceil))
  | .roundHalfUp => return .number (← Act.ofDefect (← first.asMathArgument "round").roundHalfUp)
  | .squareRoot => return .number (← Act.ofDefect (← first.asMathArgument "sqrt").root)
  | .power =>
    let base ← first.asMathArgument "pow"
    let exponent ← (argument args 1 .null).asMathArgument "pow"
    return .number (Number.mathPower Float.pow base exponent)

end StringLambda
