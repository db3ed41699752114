namespace StringLambda

/-! Finite binary floating-point numbers as exact integers times powers of two. -/

/-- The number `± mantissa * 2 ^ exponent`. -/
structure Dyadic where
  negative : Bool
  mantissa : Nat
  exponent : Int
deriving DecidableEq

namespace Dyadic

/-- Reads the fields of the 64-bit format; a biased exponent of 2047 marks infinities and NaN. -/
def ofBits? (bits : Nat) : Option Dyadic :=
  let negative := bits / Nat.pow 2 63 % 2 == 1
  let biased : Nat := bits / Nat.pow 2 52 % 2048
  let fraction : Nat := bits % Nat.pow 2 52
  if biased = 2047 then none
  else if biased = 0 then some ⟨negative, fraction, -1074⟩
  else some ⟨negative, fraction + Nat.pow 2 52, (biased : Int) - 1075⟩

def ofFloat? (x : Float) : Option Dyadic :=
  ofBits? x.toBits.toNat

def magnitude (d : Dyadic) : Nat × Nat :=
  (d.mantissa * Nat.pow 2 d.exponent.toNat, Nat.pow 2 (-d.exponent).toNat)

def ratio (d : Dyadic) : Int × Nat :=
  let (num, den) := d.magnitude
  (if d.negative then -(num : Int) else num, den)

def isInteger (d : Dyadic) : Bool :=
  let (num, den) := d.magnitude
  num % den == 0

def floor (d : Dyadic) : Int :=
  let (num, den) := d.ratio
  num.fdiv den

def ceil (d : Dyadic) : Int :=
  let (num, den) := d.ratio
  0 - (-num).fdiv den

def truncate (d : Dyadic) : Int :=
  let (num, den) := d.ratio
  num.tdiv den

def compareInt (d : Dyadic) (i : Int) : Ordering :=
  let (num, den) := d.ratio
  compare num (i * den)

end Dyadic

/-- The quotient rounded to the nearest integer, a tie to the even neighbour. -/
def roundHalfEven (num den : Nat) : Nat :=
  let q := num / den
  let r := num % den
  if 2 * r < den then q
  else if den < 2 * r then q + 1
  else if q % 2 = 0 then q else q + 1

namespace Float64

/-- The bit pattern of the format nearest to `num / den`, a tie to the even neighbour; too large a
quotient gives the pattern of infinity. -/
def bitsOfRatio (num den : Nat) : Nat :=
  if num = 0 then 0
  else
    let guess : Int := (num.log2 : Int) - den.log2 - 52
    let scaled (e : Int) : Nat × Nat := (num * Nat.pow 2 (-e).toNat, den * Nat.pow 2 e.toNat)
    let (n, d) := scaled guess
    let exponent := max (if n / d < Nat.pow 2 52 then guess - 1 else guess) (-1074)
    let (n, d) := scaled exponent
    let bits := (exponent + 1074).toNat * Nat.pow 2 52 + roundHalfEven n d
    min bits (2047 * Nat.pow 2 52)

def ofRatio (negative : Bool) (num den : Nat) : Float :=
  Float.ofBits (UInt64.ofNat (bitsOfRatio num den + if negative then Nat.pow 2 63 else 0))

/-- The float nearest to an integer, unless the integer is beyond the format. -/
def ofInt? (i : Int) : Option Float :=
  let x := ofRatio (i < 0) i.natAbs 1
  if x.isInf then none else some x

def infinity : Float := Float.ofBits 0x7ff0000000000000

def nan : Float := Float.ofBits 0x7ff8000000000000

/-- The bit pattern has its sign set, as for `-0.0` and the numbers below it. -/
def isNegative (x : Float) : Bool :=
  x.toBits.toNat / Nat.pow 2 63 == 1

end Float64

end StringLambda
