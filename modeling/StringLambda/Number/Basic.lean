import StringLambda.Defect
import StringLambda.Number.Decimal

namespace StringLambda

/-! The number tower: integers of any size and floats, compared exactly across the two kinds. -/

inductive Number where
  | int (i : Int)
  | float (x : Float)

namespace Number

/-- The number as a float; an integer beyond the float format has none. -/
def toFloat : Number → Except Defect Float
  | .int i => match Float64.ofInt? i with
    | some x => .ok x
    | none => .error .overflow
  | .float x => .ok x

def isInt : Number → Bool
  | .int _ => true
  | .float _ => false

def isNaN : Number → Bool
  | .int _ => false
  | .float x => x.isNaN

def isFinite : Number → Bool
  | .int _ => true
  | .float x => x.isFinite

def lift (onInts : Int → Int → Int) (onFloats : Float → Float → Float) :
    Number → Number → Except Defect Number
  | .int a, .int b => .ok (.int (onInts a b))
  | a, b => do return .float (onFloats (← a.toFloat) (← b.toFloat))

def compareFloats? (x y : Float) : Option Ordering :=
  if x < y then some .lt else if y < x then some .gt else if x == y then some .eq else none

/-- How a float lies to an integer; NaN has no place. -/
def compareFloatInt? (x : Float) (i : Int) : Option Ordering :=
  match Dyadic.ofFloat? x with
  | some d => some (d.compareInt i)
  | none => if x.isNaN then none else some (if Float64.isNegative x then .lt else .gt)

/-- The order of two numbers by their exact values; NaN is comparable to none. -/
def compare? : Number → Number → Option Ordering
  | .int a, .int b => some (compare a b)
  | .int a, .float y => (compareFloatInt? y a).map Ordering.swap
  | .float x, .int b => compareFloatInt? x b
  | .float x, .float y => compareFloats? x y

def equal (a b : Number) : Bool :=
  a.compare? b == some .eq

def less (a b : Number) : Bool :=
  a.compare? b == some .lt

def isZero (a : Number) : Bool :=
  a.equal (.int 0)

def isNegative (a : Number) : Bool :=
  a.less (.int 0)

def neg : Number → Number
  | .int i => .int (-i)
  | .float x => .float (-x)

def abs : Number → Number
  | .int i => .int i.natAbs
  | .float x => .float x.abs

def add : Number → Number → Except Defect Number :=
  lift (· + ·) (· + ·)

def sub : Number → Number → Except Defect Number :=
  lift (· - ·) (· - ·)

def mul : Number → Number → Except Defect Number :=
  lift (· * ·) (· * ·)

/-- The quotient of two integers as the nearest float, with the sign of a zero kept. -/
def quotient (a b : Int) : Except Defect Float :=
  let x := Float64.ofRatio (decide (a < 0) != decide (b < 0)) a.natAbs b.natAbs
  if x.isInf then .error .overflow else .ok x

def div : Number → Number → Except Defect Number
  | .int a, .int b => do return .float (← quotient a b)
  | a, b => do return .float ((← a.toFloat) / (← b.toFloat))

/-- The remainder of the truncated quotient of two floats, which has the sign of the dividend. -/
def floatRemainder (x y : Float) : Except Defect Float :=
  if x.isNaN then .ok x
  else if y.isNaN then .ok y
  else match Dyadic.ofFloat? x, Dyadic.ofFloat? y with
    | none, _ => .error .wrongValue
    | some _, none => .ok x
    | some a, some b =>
      let (an, ad) := a.magnitude
      let (bn, bd) := b.magnitude
      if bn = 0 then .error .wrongValue
      else .ok (Float64.ofRatio a.negative (an * bd % (bn * ad)) (ad * bd))

def truncateFloat (x : Float) : Except Defect Int :=
  match Dyadic.ofFloat? x with
  | some d => .ok d.truncate
  | none => .error (if x.isNaN then .wrongValue else .overflow)

/-- The remainder of a division by a number that is not zero, computed among floats. -/
def mod (a b : Number) : Except Defect Number := do
  let r ← floatRemainder (← a.toFloat) (← b.toFloat)
  if a.isInt && b.isInt then return .int (← truncateFloat r) else return .float r

/-- A power is complex when a negative number is raised to a fraction. -/
inductive Power where
  | real (value : Number)
  | complex (re im : Float)

def isWhole (x : Float) : Bool :=
  match Dyadic.ofFloat? x with
  | some d => d.isInteger
  | none => false

def isOdd (x : Float) : Bool :=
  match Dyadic.ofFloat? x with
  | some d => d.isInteger && d.truncate % 2 != 0
  | none => false

/-- The power of a negative number to a fraction, on the circle of its modulus. -/
def complexPower (x y : Float) : Except Defect Power :=
  let modulus := Float.pow x.abs y
  let phase := Float.atan2 0 (-1) * y
  let re := modulus * Float.cos phase
  let im := modulus * Float.sin phase
  if re.isInf || im.isInf then .error .overflow else .ok (.complex re im)

/-- The power of two finite floats, where too large a result is an error. -/
def finitePower (x y : Float) : Except Defect Power :=
  let r := Float.pow x y
  if r.isInf then .error .overflow else .ok (.real (.float r))

def floatPower (x y : Float) : Except Defect Power :=
  let value (r : Float) : Except Defect Power := .ok (.real (.float r))
  if y == 0 then value 1
  else if x.isNaN then value x
  else if y.isNaN then value (if x == 1 then 1 else y)
  else if y.isInf then
    if x.abs == 1 then value 1
    else if decide (0 < y) == decide (1 < x.abs) then value y.abs
    else value 0
  else if x.isInf then
    if 0 < y then value (if isOdd y then x else x.abs)
    else value (if isOdd y && Float64.isNegative x then -0.0 else 0)
  else if x == 0 then
    if y < 0 then .error .zeroDivision else value (if isOdd y then x else 0)
  else if x < 0 && !isWhole y then complexPower x y
  else finitePower x y

/-- The power of an integer. Powers of zero and the units do not grow and take one step. -/
def intPower (a : Int) (n : Nat) : Int :=
  if a.natAbs ≤ 1 then if n = 0 then 1 else if n % 2 = 0 then a * a else a
  else Int.pow a n

def pow : Number → Number → Except Defect Power
  | .int a, .int b =>
    if 0 ≤ b then .ok (.real (.int (intPower a b.toNat)))
    else do floatPower (← toFloat (.int a)) (← toFloat (.int b))
  | a, b => do floatPower (← a.toFloat) (← b.toFloat)

/-- The power among reals by a power function of floats: a result that is too large is an error, and
so is a fraction of a negative number. -/
def realPower (power : Float → Float → Float) (a b : Number) : Except Defect Float := do
  let x ← a.toFloat
  let y ← b.toFloat
  let r := power x y
  if x.isFinite && y.isFinite then
    if r.isNaN then .error .wrongValue
    else if r.isInf then .error (if x == 0 then .wrongValue else .overflow)
    else .ok r
  else .ok r

/-- Rounds to an integer by the given direction; infinities and NaN have none. -/
def toInt (direction : Dyadic → Int) : Number → Except Defect Int
  | .int i => .ok i
  | .float x => match Dyadic.ofFloat? x with
    | some d => .ok (direction d)
    | none => .error (if x.isNaN then .wrongValue else .overflow)

def nearestEven (d : Dyadic) : Int :=
  let (num, den) := d.magnitude
  let n : Int := roundHalfEven num den
  if d.negative then -n else n

/-- An integer rounded to a multiple of a power of ten, a tie to the even multiple. A power with
more zeros than the integer has digits is more than twice as large. -/
def roundIntTo (i : Int) (zeros : Nat) : Int :=
  if (digits 10 i.natAbs).length < zeros then 0
  else
    let unit := Nat.pow 10 zeros
    let n : Int := roundHalfEven i.natAbs unit * unit
    if i < 0 then -n else n

/-- A float rounded to a number of decimal places, which counts places before the point when it is
negative. -/
def roundFloatTo (x : Float) (places : Int) : Except Defect Float :=
  match Dyadic.ofFloat? x with
  | none => .ok x
  | some d =>
    if 323 < places then .ok x
    else if places < -308 then .ok (Float64.ofRatio d.negative 0 1)
    else
      let (num, den) := d.magnitude
      let up := Nat.pow 10 places.toNat
      let down := Nat.pow 10 (-places).toNat
      let r := Float64.ofRatio d.negative (roundHalfEven (num * up) (den * down) * down) up
      if r.isInf then .error .overflow else .ok r

def roundTo : Number → Int → Except Defect Number
  | .int i, places => .ok (.int (if 0 ≤ places then i else roundIntTo i (-places).toNat))
  | .float x, places => do return .float (← roundFloatTo x places)

def ratio (x : Float) : Except Defect (Int × Int) :=
  match Dyadic.ofFloat? x with
  | none => .error (if x.isNaN then .wrongValue else .overflow)
  | some d =>
    let (num, den) := d.ratio
    let g := Nat.gcd num.natAbs den
    .ok (num / g, den / g)

def countLimit : Int := Int.pow 2 63 - 1

/-- A number as a count: its integer part, with zero for NaN and the limits for the infinities. -/
def toCount : Number → Int
  | .int i => i
  | .float x =>
    if x.isNaN then 0
    else match Dyadic.ofFloat? x with
      | some d => d.truncate
      | none => if Float64.isNegative x then -countLimit else countLimit

/-- The decimal text of an integer, unless it has too many digits. -/
def decimalText (i : Int) : Except Defect String :=
  if (digits 10 i.natAbs).length ≤ digitLimit then .ok (intText i) else .error .wrongValue

def text : Number → Except Defect String
  | .int i => decimalText i
  | .float x => .ok (floatText x Layout.float)

/-- The text of a float inside other text, where a whole float, which has at most 309 digits, reads
as an integer. -/
def plainFloatText (x : Float) : String :=
  if x.isNaN then "NaN"
  else match Dyadic.ofFloat? x with
    | none => if Float64.isNegative x then "-Infinity" else "Infinity"
    | some d => if d.isInteger then intText d.truncate else floatText x Layout.float

def plainText : Number → Except Defect String
  | .int i => decimalText i
  | .float x => .ok (plainFloatText x)

def fixed (places : Nat) (n : Number) : Except Defect String := do
  return floatFixedText (← n.toFloat) places

end Number

end StringLambda
