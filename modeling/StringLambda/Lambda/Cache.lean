namespace StringLambda

/-! A table from keys to values in which the last write of a key wins. -/

structure Cache (κ α : Type) where
  entries : List (κ × α)

namespace Cache

variable {κ α : Type} [DecidableEq κ]

def empty : Cache κ α := ⟨[]⟩

def get? (c : Cache κ α) (k : κ) : Option α :=
  c.entries.lookup k

def putEntry (k : κ) (a : α) : List (κ × α) → List (κ × α)
  | [] => [(k, a)]
  | e :: es => if e.1 = k then (k, a) :: es else e :: putEntry k a es

def put (c : Cache κ α) (k : κ) (a : α) : Cache κ α :=
  ⟨putEntry k a c.entries⟩

def contains (c : Cache κ α) (k : κ) : Bool :=
  (c.get? k).isSome

def size (c : Cache κ α) : Nat :=
  c.entries.length

@[simp] theorem get?_empty (k : κ) : (empty : Cache κ α).get? k = none := rfl

theorem get?_put (c : Cache κ α) (k l : κ) (a : α) :
    (c.put k a).get? l = if l = k then some a else c.get? l := by
  obtain ⟨es⟩ := c
  simp only [put, get?]
  induction es with
  | nil =>
    by_cases h : l = k
    · simp [putEntry, h]
    · simp [putEntry, List.lookup_cons, h, beq_false_of_ne h]
  | cons e es ih =>
    obtain ⟨m, b⟩ := e
    by_cases hm : m = k
    · subst hm
      by_cases h : l = m
      · simp [putEntry, h]
      · simp [putEntry, List.lookup_cons, h, beq_false_of_ne h]
    · by_cases h : l = m
      · subst h
        simp [putEntry, hm]
      · simp [putEntry, List.lookup_cons, hm, beq_false_of_ne h, ih]

end Cache

end StringLambda
