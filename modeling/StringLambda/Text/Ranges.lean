namespace StringLambda.Text

/-! Sets of code points, given by the increasing list of the points at which membership changes. -/

/-- The number of entries not above `c` in the part of a sorted array between two places. -/
def rankIn (bounds : Array Nat) (c : Nat) : Nat → Nat → Nat → Nat
  | 0, low, _ => low
  | fuel + 1, low, high =>
    if low < high then
      let middle := (low + high) / 2
      if bounds.getD middle 0 ≤ c then rankIn bounds c fuel (middle + 1) high
      else rankIn bounds c fuel low middle
    else low

/-- A code point belongs to the set when it has passed an odd number of changes. -/
def inRanges (bounds : Array Nat) (c : Nat) : Bool :=
  rankIn bounds c (bounds.size + 1) 0 bounds.size % 2 == 1

end StringLambda.Text
