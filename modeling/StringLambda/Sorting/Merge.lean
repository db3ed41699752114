import StringLambda.Sorting.Boundary

namespace StringLambda

/-! Merging two sorted runs by an order that may fail. The items are taken one by one while both
runs are taken from in turn, and in blocks while the items of one run go far ahead of the other. -/

/-- The end of the runs that a merge takes items from: the least items first, or the greatest. -/
inductive Side where
  | front | back
deriving DecidableEq

/-- Two runs that are being merged, both in the order of taking. One of them has been moved aside,
so that its place is free for the items that are taken. -/
structure Merging (α : Type) where
  aside : List α
  other : List α
  /-- The items that have been taken, the latest first. -/
  taken : List α
  /-- How often one run has to go ahead of the other before its items are taken in blocks. -/
  patience : Nat

/-- The items after a merge. If the order failed, they lie as they did then. -/
structure Merged (α ε : Type) where
  items : List α
  patience : Nat
  failure : Option ε

inductive Pace where
  /-- One by one, after one run has gone ahead a number of times. -/
  | single (wins : Nat) (ofAside : Bool)
  /-- In blocks, the first or the second of a pair of blocks; a long first block is remembered. -/
  | block (ofAside second long : Bool)

def longBlock : Nat := 7

namespace Merging

variable {α ε : Type}

def finish (side : Side) (m : Merging α) (rest : List α) (failure : Option ε) : Merged α ε :=
  ⟨match side with
    | .front => m.taken.reverse ++ rest
    | .back => rest.reverse ++ m.taken,
    m.patience, failure⟩

/-- Ends a merge at a failure, with the run that was moved aside back in the place that is left. -/
def abandon (side : Side) (m : Merging α) (e : ε) : Merged α ε :=
  m.finish side (m.aside ++ m.other) (some e)

/-- A merge is over when one run is used up or a sole item is left aside. -/
def isOver (m : Merging α) : Bool :=
  match m.aside, m.other with
  | _ :: _ :: _, _ :: _ => false
  | _, _ => true

/-- The pace after a pair of blocks. A long block makes the next pair more likely, and two short
ones make it less likely, unless the merge is over. -/
def afterBlocks (side : Side) (m : Merging α) (long : Bool) : Pace × Merging α :=
  if m.isOver then (.single 0 false, m)
  else if long then
    (.block (side = .front) false false, { m with patience := max 1 (m.patience - 1) })
  else (.single 0 false, { m with patience := m.patience + 1 })

def afterBlock (side : Side) (m : Merging α) (ofAside second long : Bool) : Pace × Merging α :=
  if second then m.afterBlocks side long else (.block (!ofAside) true long, m)

end Merging

section

variable {α ε : Type} (less : α → α → Except ε Bool)

/-- Whether an item of the other run is taken before one of the run aside. -/
def precedes (side : Side) (y x : α) : Except ε Bool :=
  match side with
  | .front => less y x
  | .back => less x y

/-- The number of items of a run that are taken before the first item of the other one. -/
def blockSize (side : Side) (ofAside : Bool) (x y : α) (xs ys : List α) : Except ε Nat :=
  if ofAside then gallop (fun x => return !(← precedes less side y x)) (side = .back) (x :: xs)
  else gallop (fun y => precedes less side y x) (side = .back) (y :: ys)

/-- Merges two runs. A sole item that is left aside is taken last. Each step takes an item at least,
and the fuel bounds the steps. -/
def mergeSteps (side : Side) : Nat → Pace → Merging α → Merged α ε
  | 0, _, m => m.finish side (m.aside ++ m.other) none
  | n + 1, pace, m =>
    match m.aside, m.other with
    | xs, [] => m.finish side xs none
    | [], ys => m.finish side ys none
    | [x], ys => m.finish side (ys ++ [x]) none
    | x :: xs, y :: ys =>
      match pace with
      | .single wins ofAside =>
        match precedes less side y x with
        | .error e => m.abandon side e
        | .ok ofOther =>
          let wins := if ofOther = ofAside then 1 else wins + 1
          let pace := if m.patience ≤ wins then .block (side = .front) false false
            else .single wins !ofOther
          let m := if ofOther then { m with other := ys, taken := y :: m.taken }
            else { m with aside := xs, taken := x :: m.taken }
          mergeSteps side n pace m
      | .block ofAside second long =>
        match blockSize less side ofAside x y xs ys with
        | .error e => m.abandon side e
        | .ok size =>
          let long := long || longBlock ≤ size
          if ofAside then
            let m := { m with
              aside := (x :: xs).drop size, taken := ((x :: xs).take size).reverse ++ m.taken }
            if m.aside.length ≤ 1 then m.finish side (y :: ys ++ m.aside) none
            else
              let (pace, m) := { m with other := ys, taken := y :: m.taken }.afterBlock side
                ofAside second long
              mergeSteps side n pace m
          else
            let m := { m with
              other := (y :: ys).drop size, taken := ((y :: ys).take size).reverse ++ m.taken }
            if m.other.isEmpty then m.finish side m.aside none
            else
              let (pace, m) := { m with aside := xs, taken := x :: m.taken }.afterBlock side
                ofAside second long
              mergeSteps side n pace m

/-- Merges two runs of which the first item of the other one is known to be the first. -/
def mergeFrom (side : Side) (patience : Nat) (aside other : List α) : Merged α ε :=
  mergeSteps less side (aside.length + other.length) (.single 0 false)
    ⟨aside, other.drop 1, other.take 1, patience⟩

/-- Merges two neighbouring runs. The items at the start of the first that belong there stay, and so
do those at the end of the second; the shorter one of what is left is moved aside. -/
def mergeRuns (patience : Nat) (first second : List α) : Merged α ε :=
  let unmerged (failure : Option ε) : Merged α ε := ⟨first ++ second, patience, failure⟩
  match second with
  | [] => unmerged none
  | y :: _ =>
    match gallop (fun x => return !(← less y x)) false first with
    | .error e => unmerged (some e)
    | .ok kept =>
      let left := (first.drop kept).reverse
      match left with
      | [] => unmerged none
      | x :: _ =>
        let behind := second.reverse
        match gallop (fun z => return !(← less z x)) true behind with
        | .error e => unmerged (some e)
        | .ok last =>
          let right := behind.drop last
          if right.isEmpty then unmerged none
          else
            let merged := if left.length ≤ right.length
              then mergeFrom less .front patience left.reverse right.reverse
              else mergeFrom less .back patience right left
            ⟨first.take kept ++ merged.items ++ (behind.take last).reverse, merged.patience,
              merged.failure⟩

end

end StringLambda
