namespace StringLambda

/-! Parts of a list named by signed positions, where a negative position counts from the end. -/

/-- A signed position in a list of the given length, clipped to its ends. -/
def clipPosition (length : Nat) (i : Int) : Nat :=
  if i < 0 then (i + length).toNat else min i.toNat length

def slice {α : Type} (start : Int) (stop : Option Int) (items : List α) : List α :=
  let first := clipPosition items.length start
  let last := (stop.map (clipPosition items.length)).getD items.length
  (items.take last).drop first

def positionIndex? (length : Nat) (i : Int) : Option Nat :=
  let j := if i < 0 then i + length else i
  if 0 ≤ j ∧ j < length then some j.toNat else none

end StringLambda
