import StringLambda.Number.Dyadic
import StringLambda.Number.Radix

namespace StringLambda

/-! Decimal text of floating-point numbers: the fewest digits that read back, and fixed places. -/

/-- The number `0.d₁d₂… * 10 ^ point`, where the digits spell `digits`. -/
structure Decimal where
  digits : List Char
  point : Int
deriving DecidableEq

/-- The reals that round to a positive float, scaled by `scale`: strictly between `low` and `high`,
the ends included when `closed`. -/
structure Rounding where
  low : Nat
  value : Nat
  high : Nat
  scale : Nat
  closed : Bool

/-- Neighbouring floats lie one unit of the exponent apart, except below a power of two, where the
lower neighbour lies half a unit away. -/
def Dyadic.rounding (d : Dyadic) : Rounding :=
  let up := Nat.pow 2 d.exponent.toNat
  let scale := 4 * Nat.pow 2 (-d.exponent).toNat
  let gap := if d.mantissa = Nat.pow 2 52 ∧ -1074 < d.exponent then 1 else 2
  ⟨(4 * d.mantissa - gap) * up, 4 * d.mantissa * up, (4 * d.mantissa + 2) * up, scale,
    d.mantissa % 2 == 0⟩

/-- Whether `k * num / den` rounds to the float. -/
def Rounding.holds (r : Rounding) (k num den : Nat) : Bool :=
  let x := k * num * r.scale
  if r.closed then r.low * den ≤ x && x ≤ r.high * den
  else r.low * den < x && x < r.high * den

/-- The multiple of `num / den` that rounds to the float and lies nearest to it, if one of the two
neighbours of the float on that grid does. -/
def Rounding.onGrid? (r : Rounding) (num den : Nat) : Option Nat :=
  let below := r.value * den / (r.scale * num)
  let above := below + 1
  match r.holds below num den, r.holds above num den with
  | false, false => none
  | true, false => some below
  | false, true => some above
  | true, true =>
    let x := 2 * r.value * den
    let middle := (2 * below + 1) * num * r.scale
    if x < middle then some below
    else if middle < x then some above
    else if below % 2 = 0 then some below else some above

/-- The number of digits before the point of `num / den`, zero or negative below one tenth. -/
def decimalPoint (num den : Nat) : Int :=
  let guess : Int := (num.log2 : Int) * 1233 / 4096 - (den.log2 : Int) * 1233 / 4096 - 2
  let below (p : Int) : Bool := num * Nat.pow 10 (-p).toNat < den * Nat.pow 10 p.toNat
  let rec climb : Nat → Int → Int
    | 0, p => p
    | fuel + 1, p => if below p then p else climb fuel (p + 1)
  climb 6 guess

/-- Grids of one more digit at each step, from the coarsest; seventeen digits always suffice. -/
def Rounding.firstGrid (r : Rounding) (point : Int) : Nat → Nat → Nat × Int
  | 0, _ => (0, 0)
  | fuel + 1, count =>
    let unit := point - count
    match r.onGrid? (Nat.pow 10 unit.toNat) (Nat.pow 10 (-unit).toNat) with
    | some k => (k, unit)
    | none => r.firstGrid point fuel (count + 1)

def dropTrailingZeros (ds : List Char) : List Char :=
  (ds.reverse.dropWhile (· == '0')).reverse

/-- The shortest decimal that rounds to the magnitude of a float, the nearest of those. -/
def Dyadic.shortest (d : Dyadic) : Decimal :=
  if d.mantissa = 0 then ⟨['0'], 1⟩
  else
    let (num, den) := d.magnitude
    let (k, unit) := d.rounding.firstGrid (decimalPoint num den) 18 1
    let ds := digits 10 k
    ⟨dropTrailingZeros ds, ds.length + unit⟩

structure Layout where
  /-- Least power of ten of the first digit that is written without an exponent. -/
  positionalFrom : Int
  /-- First power of ten that is written with an exponent. -/
  positionalBelow : Int
  /-- A whole number keeps a point and a zero. -/
  pointZero : Bool

/-- Floats are positional from 0.0001 up to below 10^16, and whole ones end in `.0`. -/
def Layout.float : Layout := ⟨-4, 16, true⟩

/-- The parts of a complex number are laid out as floats, whole ones without a point. -/
def Layout.complexPart : Layout := ⟨-4, 16, false⟩

def exponentText (e : Int) : List Char :=
  let ds := digits 10 e.natAbs
  'e' :: (if e < 0 then '-' else '+') :: (if ds.length < 2 then '0' :: ds else ds)

def Decimal.text (d : Decimal) (layout : Layout) : List Char :=
  let n := d.digits.length
  let e := d.point - 1
  if layout.positionalFrom ≤ e ∧ e < layout.positionalBelow then
    if d.point ≤ 0 then
      '0' :: '.' :: (List.replicate (-d.point).toNat '0' ++ d.digits)
    else if d.point < n then
      d.digits.take d.point.toNat ++ '.' :: d.digits.drop d.point.toNat
    else
      d.digits ++ List.replicate (d.point.toNat - n) '0'
        ++ (if layout.pointZero then ['.', '0'] else [])
  else
    match d.digits with
    | [] => []
    | [first] => first :: exponentText e
    | first :: rest => first :: '.' :: (rest ++ exponentText e)

/-- The text of a float; infinities and NaN have names. -/
def floatText (x : Float) (layout : Layout) : String :=
  if x.isNaN then "nan"
  else
    let sign := if Float64.isNegative x then ['-'] else []
    match Dyadic.ofFloat? x with
    | none => String.ofList (sign ++ "inf".toList)
    | some d => String.ofList (sign ++ d.shortest.text layout)

/-- The fraction `num / den` with the given number of places, the last one rounded to nearest, a tie
to even. -/
def fixedText (num den places : Nat) : List Char :=
  let ds := digits 10 (roundHalfEven (num * Nat.pow 10 places) den)
  let padded := List.replicate (places + 1 - ds.length) '0' ++ ds
  let whole := padded.take (padded.length - places)
  if places = 0 then whole else whole ++ '.' :: padded.drop (padded.length - places)

def floatFixedText (x : Float) (places : Nat) : String :=
  if x.isNaN then "nan"
  else
    let sign := if Float64.isNegative x then ['-'] else []
    match Dyadic.ofFloat? x with
    | none => String.ofList (sign ++ "inf".toList)
    | some d =>
      let (num, den) := d.magnitude
      String.ofList (sign ++ fixedText num den places)

end StringLambda
