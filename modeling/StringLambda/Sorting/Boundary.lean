namespace StringLambda

/-! The boundary in a list at which a test, which may fail, stops to hold. On a sorted list the
items that are less than a given one end at such a boundary. -/

section

variable {α ε : Type} (holds : α → Except ε Bool)

/-- Looks for the boundary among the `width` items from a place on by halving. Of the two middles of
an even width, the lower one is tested when `low` says so. The fuel bounds the halving and is never
less than the width. -/
def halve (low : Bool) (xs : List α) : Nat → Nat → Nat → Except ε Nat
  | 0, start, _ => .ok start
  | n + 1, start, width =>
    let middle := if low then (width - 1) / 2 else width / 2
    if width = 0 then .ok start
    else
      match xs[start + middle]? with
      | none => .ok start
      | some x => do
        if ← holds x then halve low xs n (start + middle + 1) (width - middle - 1)
        else halve low xs n start middle

/-- Tests items in strides that double, from the place `next` on: the place of the last item that
passed, and the place of the first one that did not or the end of the list. `place` is where the
list starts. -/
def stride : List α → Nat → Nat → Nat → Except ε (Nat × Nat)
  | [], place, last, _ => .ok (last, place)
  | x :: xs, place, last, next =>
    if place < next then stride xs (place + 1) last next
    else do
      if ← holds x then stride xs (place + 1) place (2 * place + 1) else return (last, place)

/-- The boundary, looked for in strides from the start and then by halving. It takes few tests when
it is near. -/
def gallop (low : Bool) : List α → Except ε Nat
  | [] => .ok 0
  | x :: xs => do
    if ← holds x then
      let (last, stop) ← stride holds xs 1 0 1
      halve holds low (x :: xs) (stop - last) (last + 1) (stop - last - 1)
    else return 0

end

end StringLambda
