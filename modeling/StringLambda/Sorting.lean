import StringLambda.Sorting.Merge

namespace StringLambda

/-! Sorting by an order that may fail on some pairs. A list is cut into runs that are sorted
already, short runs are filled up by insertion, and neighbouring runs are merged as in a balanced
tree over the list. Items of equal rank keep their order. -/

/-- A sorted run that waits to be merged, with its place in the list. The level is that of the node
of the tree between this run and the next one. -/
structure Pending (α : Type) where
  items : List α
  start : Nat
  size : Nat
  level : Nat

/-- What has been sorted of a list: the runs, the latest first. If the order failed, the runs hold
the items as they lay then. -/
structure Sorted (α ε : Type) where
  runs : List (Pending α)
  patience : Nat
  failure : Option ε

namespace Pending

variable {α ε : Type}

def join (first second : Pending α) (merged : Merged α ε) : Pending α :=
  { first with items := merged.items, size := first.size + second.size }

def itemsOf (runs : List (Pending α)) : List α :=
  runs.foldl (fun items run => run.items ++ items) []

end Pending

/-- The least size of the runs in a list of a size: between 32 and 64, so that the number of runs is
not far above a power of two. A smaller list is one run. -/
def leastRun (size : Nat) : Nat :=
  let unit := Nat.pow 2 (size.log2 - 5)
  (size + unit - 1) / unit

/-- The level of the first node, from the root of a balanced tree over `size` places down, that lies
between the middles of two runs. -/
def levelBetween (size start first second : Nat) : Nat :=
  let left := 2 * start + first
  let right := left + first + second
  let parts (k : Nat) : Bool := left * Nat.pow 2 k / size != right * Nat.pow 2 k / size
  ((List.range (size.log2 + 1)).find? parts).getD (size.log2 + 1)

section

variable {α ε : Type} (less : α → α → Except ε Bool)

/-- How many items go on as a run does, each of them less than the item before it or not, after a
number of items that do. -/
def runTail (falls : Bool) (size : Nat) (previous : α) : List α → Except ε Nat
  | [] => .ok size
  | x :: xs => do
    if (← less x previous) == falls then runTail falls (size + 1) x xs else return size

/-- The size of the run at the start of a list, and whether it falls. -/
def runSize : List α → Except ε (Nat × Bool)
  | x :: y :: ys => do
    let falls ← less y x
    return (← runTail less falls 2 y ys, falls)
  | xs => .ok (xs.length, false)

/-- Inserts items into a sorted list one after the other, each behind the items of equal rank. Where
the order fails, the items lie as they were when it did. -/
def insertAll (sorted : List α) : List α → List α × Option ε
  | [] => (sorted, none)
  | x :: xs =>
    match halve (fun y => return !(← less x y)) false sorted sorted.length 0 sorted.length with
    | .ok i => insertAll (sorted.take i ++ x :: sorted.drop i) xs
    | .error e => (sorted ++ x :: xs, some e)

/-- The run at the start of a list, in ascending order and filled up to the least size. -/
def nextRun (least : Nat) (xs : List α) : List α × Option ε :=
  match runSize less xs with
  | .error e => ([], some e)
  | .ok (size, falls) =>
    let run := xs.take size
    insertAll less (if falls then run.reverse else run) ((xs.drop size).take (least - size))

/-- Merges the latest run with those before it while the node between them lies below a level, which
then is the level behind the run. -/
def settle (level : Nat) (patience : Nat) (latest : Pending α) : List (Pending α) → Sorted α ε
  | [] => ⟨[{ latest with level }], patience, none⟩
  | earlier :: runs =>
    if level < earlier.level then
      let merged := mergeRuns less patience earlier.items latest.items
      let run := earlier.join latest merged
      if merged.failure.isSome then ⟨run :: runs, merged.patience, merged.failure⟩
      else settle level merged.patience run runs
    else ⟨{ latest with level } :: earlier :: runs, patience, none⟩

/-- Settles the runs before a new run of a size and a start in a list. -/
def settleBefore (total start size : Nat) (patience : Nat) : List (Pending α) → Sorted α ε
  | [] => ⟨[], patience, none⟩
  | latest :: runs =>
    settle less (levelBetween total latest.start (start - latest.start) size) patience latest runs

/-- Merges all runs. Of three, the first two are merged before the last one if the first is shorter
than the last. Each step merges two runs, and the fuel bounds the steps. -/
def collapse : Nat → Nat → List (Pending α) → Sorted α ε
  | n + 1, patience, latest :: earlier :: runs =>
    match runs with
    | earliest :: runs =>
      if earliest.size < latest.size then
        let merged := mergeRuns less patience earliest.items earlier.items
        let runs := latest :: earliest.join earlier merged :: runs
        if merged.failure.isSome then ⟨runs, merged.patience, merged.failure⟩
        else collapse n merged.patience runs
      else
        let merged := mergeRuns less patience earlier.items latest.items
        let runs := earlier.join latest merged :: earliest :: runs
        if merged.failure.isSome then ⟨runs, merged.patience, merged.failure⟩
        else collapse n merged.patience runs
    | [] =>
      let merged := mergeRuns less patience earlier.items latest.items
      ⟨[earlier.join latest merged], merged.patience, merged.failure⟩
  | _, patience, runs => ⟨runs, patience, none⟩

/-- Cuts runs off the rest of a list that starts at a place, and merges them to the runs before it.
Each step cuts off an item at least, and the fuel bounds the steps. -/
def sortFrom (total : Nat) : Nat → Nat → Nat → List (Pending α) → List α → List α × Option ε
  | n + 1, patience, start, runs, x :: xs =>
    let (run, failure) := nextRun less (leastRun total) (x :: xs)
    let rest := (x :: xs).drop run.length
    if failure.isSome then (Pending.itemsOf runs ++ run ++ rest, failure)
    else
      let sorted := settleBefore less total start run.length patience runs
      if sorted.failure.isSome then (Pending.itemsOf sorted.runs ++ run ++ rest, sorted.failure)
      else
        sortFrom total n sorted.patience (start + run.length)
          (⟨run, start, run.length, 0⟩ :: sorted.runs) rest
  | _, patience, _, runs, rest =>
    let sorted := collapse less runs.length patience runs
    (Pending.itemsOf sorted.runs ++ rest, sorted.failure)

/-- The sorted list. If the order fails, the list as far as it has been sorted, and the failure. -/
def sortBy (xs : List α) : List α × Option ε :=
  match xs with
  | [] | [_] => (xs, none)
  | xs => sortFrom less xs.length xs.length longBlock 0 [] xs

def bestOf (beats : α → α → Except ε Bool) (best : α) : List α → Except ε α
  | [] => .ok best
  | x :: xs => do
    if ← beats x best then bestOf beats x xs else bestOf beats best xs

end

end StringLambda
