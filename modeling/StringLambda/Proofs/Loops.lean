import Mathlib.Algebra.GroupWithZero.Nat
import StringLambda.Proofs.Evaluation.Setting

namespace StringLambda

open Run

/-! The loops over lists that run a callback. Every loop visits a list by position, as the list is
when a position is reached, and does what its definition over a fixed list of items says about the
items that it visits. -/

/-- A visit to an item: the state that it is made in, the state that it leaves, and the stop that it
ends with if it has no result. -/
structure Visit where
  item : Value
  before : Machine
  after : Machine
  stop : Option Stop

def Visit.growth (list : Ref) (v : Visit) : Nat :=
  v.after.heap.size list - v.before.heap.size list

namespace Items

variable {σ : Type}

def visitsFrom (list : Ref) (visit : σ → Value → Run (ForInStep σ)) :
    Nat → Nat → σ → Machine → List Visit
  | 0, _, _, _ => []
  | steps + 1, i, state, m =>
    match m.heap.item? list i with
    | none => []
    | some item =>
      ⟨item, m, endOf (visit state item m), stopOf (visit state item m)⟩ ::
        match visit state item m with
        | .ok (.yield state) n => visitsFrom list visit steps (i + 1) state n
        | _ => []

section

variable {list : Ref} {visit : σ → Value → Run (ForInStep σ)} {steps i : Nat} {state : σ}
  {m : Machine} {item : Value}

theorem visitFrom_none (h : m.heap.item? list i = none) (visit : σ → Value → Run (ForInStep σ))
    (steps : Nat) (state : σ) : visitFrom list visit (steps + 1) i state m = .ok state m := by
  have hheap : Run.heap m = .ok m.heap m := rfl
  simp only [visitFrom, Bind.bind, EStateM.bind, hheap, h]
  rfl

theorem visitFrom_some (h : m.heap.item? list i = some item) :
    visitFrom list visit (steps + 1) i state m = (do
      match ← visit state item with
      | .done state => return state
      | .yield state => visitFrom list visit steps (i + 1) state) m := by
  have hheap : Run.heap m = .ok m.heap m := rfl
  refine (bind_of_ok hheap _).trans ?_
  generalize m.heap.item? list i = found at h ⊢
  cases h
  rfl

theorem visitsFrom_none (h : m.heap.item? list i = none) :
    visitsFrom list visit (steps + 1) i state m = [] := by
  rw [visitsFrom, h]

theorem visitsFrom_last (h : m.heap.item? list i = some item)
    (hlast : ∀ next n, visit state item m ≠ .ok (.yield next) n) :
    visitsFrom list visit (steps + 1) i state m =
      [⟨item, m, endOf (visit state item m), stopOf (visit state item m)⟩] := by
  rw [visitsFrom, h]
  dsimp only
  split
  next next n hvisit => exact absurd hvisit (hlast next n)
  next => rfl

theorem visitsFrom_next (h : m.heap.item? list i = some item) {next : σ} {n : Machine}
    (hnext : visit state item m = .ok (.yield next) n) :
    visitsFrom list visit (steps + 1) i state m =
      ⟨item, m, n, none⟩ :: visitsFrom list visit steps (i + 1) next n := by
  rw [visitsFrom, h]
  simp only [hnext, endOf, stopOf]

theorem bind_congr_of_last {α : Type} {f g : ForInStep σ → Run α}
    (hlast : ∀ next n, visit state item m ≠ .ok (.yield next) n)
    (hdone : ∀ state, f (.done state) = g (.done state)) :
    (visit state item >>= f) m = (visit state item >>= g) m := by
  cases hvisit : visit state item m with
  | error stop n => rw [bind_of_error hvisit, bind_of_error hvisit]
  | ok after n =>
      rw [bind_of_ok hvisit, bind_of_ok hvisit]
      cases after with
      | done state => rw [hdone state]
      | «yield» state => exact absurd hvisit (hlast state n)

end

theorem visitsFrom_induction (list : Ref) (visit : σ → Value → Run (ForInStep σ))
    {motive : Nat → Nat → σ → Machine → Prop}
    (unfinished : ∀ i state m, motive 0 i state m)
    (past : ∀ steps i state m, m.heap.item? list i = none → motive (steps + 1) i state m)
    (last : ∀ steps i state m item, m.heap.item? list i = some item →
      (∀ next n, visit state item m ≠ .ok (.yield next) n) → motive (steps + 1) i state m)
    (next : ∀ steps i state m item next n, m.heap.item? list i = some item →
      visit state item m = .ok (.yield next) n → motive steps (i + 1) next n →
      motive (steps + 1) i state m)
    (steps i : Nat) (state : σ) (m : Machine) : motive steps i state m := by
  induction steps generalizing i state m with
  | zero => exact unfinished i state m
  | succ steps ih =>
      cases hitem : m.heap.item? list i with
      | none => exact past steps i state m hitem
      | some item =>
          by_cases hnext : ∃ next n, visit state item m = .ok (.yield next) n
          · obtain ⟨state', n, hvisit⟩ := hnext
            exact next steps i state m item state' n hitem hvisit (ih (i + 1) state' n)
          · simp only [not_exists] at hnext
            exact last steps i state m item hitem hnext

section

variable {list : Ref} {visit : σ → Value → Run (ForInStep σ)} {steps i : Nat} {state : σ}
  {m : Machine} {item : Value}

/-- A loop that comes to an end does what its visits do, one item after another. -/
theorem visitFrom_eq_forIn (h : (visitsFrom list visit steps i state m).length < steps) :
    visitFrom list visit steps i state m =
      forIn ((visitsFrom list visit steps i state m).map Visit.item) state
        (fun item state => visit state item) m := by
  induction steps, i, state, m using visitsFrom_induction list visit with
  | unfinished => exact absurd h (Nat.not_lt_zero _)
  | past steps i state m hitem =>
      rw [visitFrom_none hitem, visitsFrom_none hitem]
      rfl
  | last steps i state m item hitem hlast =>
      rw [visitFrom_some hitem, visitsFrom_last hitem hlast, List.map_singleton, List.forIn_cons]
      exact bind_congr_of_last hlast fun _ => rfl
  | next steps i state m item next n hitem hnext ih =>
      rw [visitsFrom_next hitem hnext, List.length_cons] at h
      rw [visitFrom_some hitem, visitsFrom_next hitem hnext, List.map_cons, List.forIn_cons,
        bind_of_ok hnext, bind_of_ok hnext]
      exact ih (Nat.lt_of_succ_lt_succ h)

theorem stopOf_visitFrom (h : (visitsFrom list visit steps i state m).length < steps) :
    stopOf (visitFrom list visit steps i state m) =
      (visitsFrom list visit steps i state m).getLast?.bind Visit.stop := by
  induction steps, i, state, m using visitsFrom_induction list visit with
  | unfinished => exact absurd h (Nat.not_lt_zero _)
  | past steps i state m hitem =>
      rw [visitFrom_none hitem, visitsFrom_none hitem]
      rfl
  | last steps i state m item hitem hlast =>
      rw [visitFrom_some hitem, visitsFrom_last hitem hlast]
      show _ = stopOf (visit state item m)
      cases hvisit : visit state item m with
      | error stop n =>
          rw [bind_of_error hvisit]
          rfl
      | ok after n =>
          rw [bind_of_ok hvisit]
          cases after with
          | done state => rfl
          | «yield» state => exact absurd hvisit (hlast state n)
  | next steps i state m item next n hitem hnext ih =>
      rw [visitsFrom_next hitem hnext, List.length_cons] at h
      rw [visitFrom_some hitem, visitsFrom_next hitem hnext, bind_of_ok hnext]
      refine (ih (Nat.lt_of_succ_lt_succ h)).trans ?_
      -- The last visit is this one only if no other one follows.
      rw [List.getLast?_cons]
      cases (visitsFrom list visit steps (i + 1) next n).getLast? <;> rfl

theorem item?_of_mem_visitsFrom {j : Nat} {v : Visit}
    (h : (visitsFrom list visit steps i state m)[j]? = some v) :
    v.before.heap.item? list (i + j) = some v.item := by
  induction steps, i, state, m using visitsFrom_induction list visit generalizing j with
  | unfinished => cases h
  | past steps i state m hitem =>
      rw [visitsFrom_none hitem] at h
      cases h
  | last steps i state m item hitem hlast =>
      rw [visitsFrom_last hitem hlast, List.getElem?_singleton] at h
      split at h
      next hj =>
        cases h
        rw [hj]
        exact hitem
      next => cases h
  | next steps i state m item next n hitem hnext ih =>
      rw [visitsFrom_next hitem hnext] at h
      cases j with
      | zero =>
          cases h
          exact hitem
      | succ j =>
          rw [show i + (j + 1) = i + 1 + j by omega]
          exact ih h

theorem lt_size_of_item? (h : m.heap.item? list i = some item) : i < m.heap.size list := by
  rw [Heap.item?_eq_getElem?] at h
  rw [Heap.size_eq_length]
  exact (List.getElem?_eq_some_iff.mp h).1

theorem position_lt {j : Nat} (h : j < (visitsFrom list visit steps i state m).length) :
    i + j < m.heap.size list +
      (((visitsFrom list visit steps i state m).take j).map (Visit.growth list)).sum := by
  induction steps, i, state, m using visitsFrom_induction list visit generalizing j with
  | unfinished => cases h
  | past steps i state m hitem =>
      rw [visitsFrom_none hitem] at h
      cases h
  | last steps i state m item hitem hlast =>
      rw [visitsFrom_last hitem hlast, List.length_singleton, Nat.lt_one_iff] at h
      rw [h]
      exact Nat.lt_add_right _ (lt_size_of_item? hitem)
  | next steps i state m item next n hitem hnext ih =>
      rw [visitsFrom_next hitem hnext] at h ⊢
      cases j with
      | zero => exact Nat.lt_add_right _ (lt_size_of_item? hitem)
      | succ j =>
          have hrest := ih (Nat.lt_of_succ_lt_succ h)
          rw [List.take_succ_cons, List.map_cons, List.sum_cons, Visit.growth]
          dsimp only
          omega

theorem length_visitsFrom_le_bound {bound : Nat} (hsize : m.heap.size list ≤ bound)
    (hvisits : ∀ v ∈ visitsFrom list visit steps i state m, v.after.heap.size list ≤ bound) :
    (visitsFrom list visit steps i state m).length ≤ bound - i := by
  induction steps, i, state, m using visitsFrom_induction list visit with
  | unfinished => exact Nat.zero_le _
  | past steps i state m hitem =>
      rw [visitsFrom_none hitem]
      exact Nat.zero_le _
  | last steps i state m item hitem hlast =>
      have hi := lt_size_of_item? hitem
      rw [visitsFrom_last hitem hlast, List.length_singleton]
      omega
  | next steps i state m item next n hitem hnext ih =>
      have hi := lt_size_of_item? hitem
      rw [visitsFrom_next hitem hnext, List.forall_mem_cons] at hvisits
      have hrest := ih hvisits.1 hvisits.2
      rw [visitsFrom_next hitem hnext, List.length_cons]
      omega

theorem length_visitsFrom_le (list : Ref) (visit : σ → Value → Run (ForInStep σ))
    (steps i : Nat) (state : σ) (m : Machine) :
    (visitsFrom list visit steps i state m).length ≤ m.heap.size list +
      ((visitsFrom list visit steps i state m).map (Visit.growth list)).sum := by
  generalize hvisits : visitsFrom list visit steps i state m = visits
  cases hlength : visits.length with
  | zero => exact Nat.zero_le _
  | succ k =>
      have hk : k < (visitsFrom list visit steps i state m).length := by
        rw [hvisits, hlength]
        exact Nat.lt_succ_self k
      have hlast := position_lt hk
      rw [hvisits] at hlast
      have hsplit : visits.map (Visit.growth list) =
          (visits.take k).map (Visit.growth list) ++ (visits.drop k).map (Visit.growth list) := by
        rw [← List.map_append, List.take_append_drop]
      rw [hsplit, List.sum_append]
      omega

theorem forIn_visitsFrom {items rest : List Value}
    (hkept : ∀ v ∈ visitsFrom list visit steps i state m,
      v.after.heap.items list = v.before.heap.items list)
    (hitems : m.heap.items list = items) (hrest : items.drop i = rest)
    (hsteps : rest.length < steps) :
    (visitsFrom list visit steps i state m).map Visit.item <+: rest ∧
      forIn ((visitsFrom list visit steps i state m).map Visit.item) state
          (fun item state => visit state item) m =
        forIn rest state (fun item state => visit state item) m := by
  have hhead {m : Machine} {i : Nat} {rest : List Value} (hitems : m.heap.items list = items)
      (hrest : items.drop i = rest) : m.heap.item? list i = rest.head? := by
    rw [Heap.item?_eq_getElem?, hitems, ← List.head?_drop, hrest]
  induction steps, i, state, m using visitsFrom_induction list visit generalizing rest with
  | unfinished => exact absurd hsteps (Nat.not_lt_zero _)
  | past steps i state m hitem =>
      rw [hhead hitems hrest, List.head?_eq_none_iff] at hitem
      rw [visitsFrom_none (by rw [hhead hitems hrest, hitem]; rfl), hitem]
      exact ⟨List.nil_prefix, rfl⟩
  | last steps i state m item hitem hlast =>
      obtain ⟨rest, rfl⟩ := List.head?_eq_some_iff.mp ((hhead hitems hrest).symm.trans hitem)
      rw [visitsFrom_last hitem hlast, List.map_singleton, List.forIn_cons, List.forIn_cons,
        List.prefix_cons_iff]
      exact ⟨.inr ⟨[], rfl, List.nil_prefix⟩, bind_congr_of_last hlast fun _ => rfl⟩
  | next steps i state m item next n hitem hnext ih =>
      obtain ⟨rest, rfl⟩ := List.head?_eq_some_iff.mp ((hhead hitems hrest).symm.trans hitem)
      rw [visitsFrom_next hitem hnext, List.forall_mem_cons] at hkept
      have htail : items.drop (i + 1) = rest := by
        rw [← List.tail_drop, hrest, List.tail_cons]
      obtain ⟨hfront, hforIn⟩ := ih hkept.2 (hkept.1.trans hitems) htail
        (Nat.lt_of_succ_lt_succ hsteps)
      rw [visitsFrom_next hitem hnext, List.map_cons, List.forIn_cons, List.forIn_cons,
        List.prefix_cons_iff, bind_of_ok hnext, bind_of_ok hnext]
      exact ⟨.inr ⟨_, rfl, hfront⟩, hforIn⟩

end

end Items

end StringLambda
