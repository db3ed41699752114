import StringLambda.Defect
import StringLambda.Number.Dyadic

namespace StringLambda

/-! The modulus of a complex number. -/

namespace Float64

def powerOfTwo (exponent : Int) : Float :=
  if exponent < 0 then ofRatio false 1 (Nat.pow 2 (-exponent).toNat)
  else ofRatio false (Nat.pow 2 exponent.toNat) 1

/-- The root of the sum of two squares, the greater part first, with one step of correction. The
squares must be inside the format. -/
def rootOfSquares (x y : Float) : Float :=
  let h := (x * x + y * y).sqrt
  let residue :=
    if h <= 2 * y then
      let d := h - y
      x * (2 * d - x) + (d - 2 * (x - y)) * d
    else
      let d := h - x
      2 * d * (x - 2 * y) + ((4 * d - y) * y + d * d)
  h - residue / (2 * h)

/-- The modulus of a number with the given parts, none of them negative and the greater one first.
Parts are scaled where their squares would leave the format, and a part that is too small to count
is only added. -/
def modulusOfParts (x y : Float) : Float :=
  let scale := powerOfTwo (-600)
  let tiny := powerOfTwo (-54)
  if powerOfTwo 511 < x then
    if y <= x * tiny then x + y else rootOfSquares (x * scale) (y * scale) / scale
  else if y < powerOfTwo (-459) then
    if y / tiny <= x then x + y else rootOfSquares (x / scale) (y / scale) * scale
  else if y <= x * tiny then x + y
  else rootOfSquares x y

/-- The modulus of a complex number: an infinite part makes it infinite, also beside NaN. -/
def modulus (re im : Float) : Except Defect Float :=
  let x := re.abs
  let y := im.abs
  if x.isInf || y.isInf then .ok infinity
  else if x.isNaN || y.isNaN then .ok nan
  else
    let r := if x < y then modulusOfParts y x else modulusOfParts x y
    if r.isInf then .error .overflow else .ok r

end Float64

end StringLambda
