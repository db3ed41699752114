import StringLambda.Fault
import StringLambda.Heap

namespace StringLambda

/-! What operations on values act on: containers, and the identities of functions. -/

/-- Why a run ends without a result. -/
inductive Stop where
  | fault (f : Fault)
  /-- The bound on nested calls is used up, or the run comes to a method that is not followed. -/
  | unfinished

/-- An evaluation error that has no place yet gets one. -/
def Stop.located (place : Option Position) : Stop → Stop
  | .fault (.evaluation issue none) => .fault (.evaluation issue place)
  | stop => stop

structure Arena where
  heap : Heap
  /-- The identity of the next function. -/
  fresh : Nat

/-- An operation that reads and changes containers and takes identities. It sees nothing else of the
machine, and an error keeps the containers as they were when it arose. -/
abbrev Act := EStateM Stop Arena

theorem exists_of_bind_eq_ok {σ α β : Type} {act : EStateM Stop σ α} {f : α → EStateM Stop σ β}
    {b : β} {s s' : σ} (h : (act >>= f) s = .ok b s') :
    ∃ a t, act s = .ok a t ∧ f a t = .ok b s' := by
  simp only [Bind.bind, EStateM.bind] at h
  cases hact : act s with
  | ok a t =>
      rw [hact] at h
      exact ⟨a, t, rfl, h⟩
  | error stop t =>
      rw [hact] at h
      cases h

namespace Act

variable {α : Type}

def fault (f : Fault) : Act α :=
  throw (.fault f)

def raise (issue : EvalIssue) : Act α :=
  fault (.evaluation issue none)

def defect (d : Defect) : Act α :=
  fault (.builtin d)

def ofDefect : Except Defect α → Act α
  | .ok a => pure a
  | .error d => defect d

def heap : Act Heap := do
  return (← get).heap

def alloc (c : Cell) : Act Ref := fun s =>
  let (r, heap) := s.heap.alloc c
  .ok r { s with heap }

def write (r : Ref) (c : Cell) : Act Unit :=
  modify fun s => { s with heap := s.heap.write r c }

def modifyList (r : Ref) (f : Array Value → Array Value) : Act Unit :=
  modify fun s => { s with heap := s.heap.modifyList r f }

def setItems (r : Ref) (items : List Value) : Act Unit :=
  write r (.list items.toArray)

def newList (items : List Value) : Act Value := do
  return .list (← alloc (.list items.toArray))

def newTuple (items : List Value) : Act Value := do
  return .tuple (← alloc (.tuple items))

def newDict (entries : List Entry) : Act Value := do
  return .dict (← alloc (.dict entries))

def freshId : Act Nat := fun s =>
  .ok s.fresh { s with fresh := s.fresh + 1 }

end Act

end StringLambda
