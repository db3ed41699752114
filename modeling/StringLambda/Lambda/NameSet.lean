namespace StringLambda

/-! Finite sets: lists in which neither the order nor a repetition counts. -/

variable {κ : Type}

def sameMembers (κ : Type) : Setoid (List κ) where
  r xs ys := ∀ x, x ∈ xs ↔ x ∈ ys
  iseqv :=
    { refl := fun _ _ => Iff.rfl
      symm := fun h x => (h x).symm
      trans := fun h h' x => (h x).trans (h' x) }

instance decidableSameMembers [DecidableEq κ] (xs ys : List κ) :
    Decidable ((sameMembers κ).r xs ys) :=
  decidable_of_iff ((∀ x ∈ xs, x ∈ ys) ∧ ∀ x ∈ ys, x ∈ xs)
    ⟨fun h x => ⟨h.1 x, h.2 x⟩, fun h => ⟨fun x => (h x).mp, fun x => (h x).mpr⟩⟩

def NameSet (κ : Type) : Type :=
  Quotient (sameMembers κ)

namespace NameSet

def ofList (xs : List κ) : NameSet κ :=
  Quotient.mk (sameMembers κ) xs

theorem ofList_eq_iff {xs ys : List κ} : ofList xs = ofList ys ↔ ∀ x, x ∈ xs ↔ x ∈ ys :=
  ⟨Quotient.exact, fun h => Quotient.sound (s := sameMembers κ) h⟩

variable [DecidableEq κ]

instance : DecidableEq (NameSet κ) :=
  inferInstanceAs (DecidableEq (Quotient (sameMembers κ)))

def contains (s : NameSet κ) (x : κ) : Bool :=
  Quotient.lift (s := sameMembers κ) (fun xs => xs.contains x) (fun xs ys h => by
    rw [Bool.eq_iff_iff, List.contains_iff_mem, List.contains_iff_mem]
    exact h x) s

@[simp] theorem contains_ofList (xs : List κ) (x : κ) : (ofList xs).contains x = xs.contains x :=
  rfl

end NameSet

end StringLambda
