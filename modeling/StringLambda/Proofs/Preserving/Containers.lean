import StringLambda.Proofs.Arithmetic.Nesting

namespace StringLambda

open Relation

/-! Sound heaps, where no container is missing and none contains itself, and how they grow. -/

mutual

/-- The containers that a value mentions. A function mentions those that it was made with. -/
def Value.refs : Value → List Ref
  | .list r | .tuple r | .dict r | .record r => [r]
  | .closure _ _ _ locals scope _ => Value.refsOfLocals locals ++ scope.toList
  | .bound _ function receiver => function.refs ++ receiver.refs
  | .method _ receiver _ => receiver.refs
  | _ => []

def Value.refsOfLocals : List (String × Value) → List Ref
  | [] => []
  | (_, v) :: locals => v.refs ++ Value.refsOfLocals locals

end

theorem Value.mem_refs_of_container? {v : Value} {r : Ref} (h : v.container? = some r) :
    r ∈ v.refs := by
  cases v <;> cases h <;> exact List.mem_singleton.mpr rfl

def Cell.values : Cell → List Value
  | .list items => items.toList
  | .tuple items => items
  | .dict entries => entries.flatMap fun e => [e.label, e.value]
  | .record fields => fields.map Prod.snd

namespace Heap

variable {h k l : Heap} {r s : Ref} {v : Value}

def Holds (h : Heap) (v : Value) : Prop :=
  ∀ r ∈ v.refs, r.index < h.cells.size

instance (h : Heap) (v : Value) : Decidable (h.Holds v) :=
  inferInstanceAs (Decidable (∀ r ∈ v.refs, r.index < h.cells.size))

theorem holds_of_refs (hv : v.refs = []) : h.Holds v := by
  rw [Holds, hv]
  exact List.forall_mem_nil _

def HoldsAll (h : Heap) (vs : List Value) : Prop :=
  ∀ v ∈ vs, h.Holds v

def HoldsAny (h : Heap) (found : Option Value) : Prop :=
  ∀ v, found = some v → h.Holds v

theorem holdsAny_none (h : Heap) : h.HoldsAny none :=
  nofun

theorem holdsAny_some (hv : h.Holds v) : h.HoldsAny (some v) := by
  intro w hw
  cases hw
  exact hv

def Contains (h : Heap) (r s : Ref) : Prop :=
  ∃ c, h.cell? r = some c ∧ ∃ v ∈ c.values, v.container? = some s

structure Sound (h : Heap) : Prop where
  closed : ∀ r c, h.cell? r = some c → h.HoldsAll c.values
  acyclic : ∀ r, ¬ TransGen h.Contains r r

/-- A heap follows another one by new containers alone. -/
structure Grown (h k : Heap) : Prop where
  kept : ∀ r c, h.cell? r = some c → k.cell? r = some c
  sound : k.Sound

theorem exists_cell? (hr : r.index < h.cells.size) : ∃ c, h.cell? r = some c :=
  ⟨h.cells[r.index], Array.getElem?_eq_getElem hr⟩

theorem mem_of_lookup {fields : List (String × Value)} {name : String}
    (hv : fields.lookup name = some v) : (name, v) ∈ fields := by
  obtain ⟨before, after, rfl, _⟩ := List.lookup_eq_some_iff.mp hv
  exact List.mem_append_right _ List.mem_cons_self

theorem exists_cell?_of_mem_items (hv : v ∈ h.items r) :
    ∃ c, h.cell? r = some c ∧ v ∈ c.values := by
  unfold items at hv
  split at hv
  next xs hr => exact ⟨.list xs, hr, hv⟩
  next xs hr => exact ⟨.tuple xs, hr, hv⟩
  next => cases hv

theorem exists_cell?_of_mem_entries {e : Entry} (he : e ∈ h.entries r) :
    ∃ c, h.cell? r = some c ∧ e.value ∈ c.values := by
  unfold entries at he
  split at he
  next es hr => exact ⟨.dict es, hr, List.mem_flatMap.mpr ⟨e, he, by simp⟩⟩
  next => cases he

theorem exists_cell?_of_mem_fields {field : String × Value} (hfield : field ∈ h.fields r) :
    ∃ c, h.cell? r = some c ∧ field.2 ∈ c.values := by
  unfold fields at hfield
  split at hfield
  next fs hr => exact ⟨.record fs, hr, List.mem_map_of_mem hfield⟩
  next => cases hfield

theorem contains_of_nests (hrs : h.Nests r s) : h.Contains r s := by
  obtain ⟨v, hv, hs⟩ := hrs
  obtain ⟨c, hc, hmem⟩ := exists_cell?_of_mem_items hv
  refine ⟨c, hc, v, hmem, ?_⟩
  cases v <;> cases hs <;> rfl

namespace Sound

theorem acyclic_value (hsound : h.Sound) (v : Value) : h.Acyclic v := fun _ s _ _ hs =>
  hsound.acyclic s (TransGen.mono (p := h.Contains) (fun _ _ => contains_of_nests) s s hs)

theorem holds_item (hsound : h.Sound) (hv : v ∈ h.items r) : h.Holds v := by
  obtain ⟨c, hc, hmem⟩ := exists_cell?_of_mem_items hv
  exact hsound.closed r c hc v hmem

theorem holds_entry (hsound : h.Sound) {key : Key} (hv : Entry.find? key (h.entries r) = some v) :
    h.Holds v := by
  obtain ⟨e, he, rfl⟩ := Option.map_eq_some_iff.mp hv
  obtain ⟨c, hc, hmem⟩ := exists_cell?_of_mem_entries (List.mem_of_find?_eq_some he)
  exact hsound.closed r c hc e.value hmem

theorem holds_field (hsound : h.Sound) {name : String} (hv : (h.fields r).lookup name = some v) :
    h.Holds v := by
  obtain ⟨c, hc, hmem⟩ := exists_cell?_of_mem_fields (mem_of_lookup hv)
  exact hsound.closed r c hc v hmem

end Sound

namespace Grown

theorem refl (hsound : h.Sound) : h.Grown h := ⟨fun _ _ hr => hr, hsound⟩

theorem trans (hk : h.Grown k) (hl : k.Grown l) : h.Grown l :=
  ⟨fun r c hr => hl.kept r c (hk.kept r c hr), hl.sound⟩

theorem lt_size (hk : h.Grown k) (hr : r.index < h.cells.size) : r.index < k.cells.size := by
  obtain ⟨c, hc⟩ := exists_cell? hr
  exact lt_size_of_cell? (hk.kept r c hc)

theorem holds (hk : h.Grown k) (hv : h.Holds v) : k.Holds v :=
  fun r hr => hk.lt_size (hv r hr)

end Grown

section

variable {c : Cell}

theorem size_alloc (h : Heap) (c : Cell) : (h.alloc c).2.cells.size = h.cells.size + 1 :=
  Array.size_push c

theorem cell?_of_alloc {d : Cell} (hr : (h.alloc c).2.cell? r = some d) :
    h.cell? r = some d ∨ r.index = h.cells.size ∧ d = c := by
  have hlt := lt_size_of_cell? hr
  rw [size_alloc] at hlt
  by_cases hold : r.index < h.cells.size
  · exact .inl ((cell?_alloc_of_lt h c hold).symm.trans hr)
  · have hnew : r.index = (h.alloc c).1.index := Nat.le_antisymm (Nat.le_of_lt_succ hlt)
      (Nat.not_lt.mp hold)
    have hcell := (congrArg ((h.alloc c).2.cells[·]?) hnew).symm.trans hr
    exact .inr ⟨hnew, Option.some.inj (hcell.symm.trans (cell?_alloc_self h c))⟩

namespace Sound

theorem lt_size_of_contains (hsound : h.Sound) (hrs : h.Contains r s) :
    s.index < h.cells.size := by
  obtain ⟨c, hc, v, hv, hs⟩ := hrs
  exact hsound.closed r c hc v hv s (Value.mem_refs_of_container? hs)

theorem alloc (hsound : h.Sound) (hc : h.HoldsAll c.values) : h.Grown (h.alloc c).2 := by
  have hsize := size_alloc h c
  have hcells (r : Ref) (d : Cell) (hr : (h.alloc c).2.cell? r = some d) (v : Value)
      (hv : v ∈ d.values) : h.Holds v := by
    obtain hold | ⟨-, rfl⟩ := cell?_of_alloc hr
    · exact hsound.closed r d hold v hv
    · exact hc v hv
  have hinner (r s : Ref) (hrs : (h.alloc c).2.Contains r s) : s.index < h.cells.size := by
    obtain ⟨d, hd, v, hv, hs⟩ := hrs
    exact hcells r d hd v hv s (Value.mem_refs_of_container? hs)
  have hold (r s : Ref) (hr : r.index < h.cells.size)
      (hrs : TransGen (h.alloc c).2.Contains r s) : TransGen h.Contains r s := by
    have hstep (q s : Ref) (hq : q.index < h.cells.size) (hqs : (h.alloc c).2.Contains q s) :
        h.Contains q s := by
      obtain ⟨d, hd, hmem⟩ := hqs
      exact ⟨d, (cell?_alloc_of_lt h c hq).symm.trans hd, hmem⟩
    induction hrs with
    | single hrs => exact .single (hstep r _ hr hrs)
    | tail hrq hqs ih =>
        refine ih.tail (hstep _ _ ?_ hqs)
        obtain ⟨p, -, hp⟩ := TransGen.tail'_iff.mp hrq
        exact hinner p _ hp
  refine ⟨fun r d hr => (cell?_alloc_of_lt h c (lt_size_of_cell? hr)).trans hr, ?_, ?_⟩
  · intro r d hd v hv s hs
    have := hcells r d hd v hv s hs
    omega
  · intro r hr
    obtain ⟨p, -, hp⟩ := TransGen.tail'_iff.mp hr
    exact hsound.acyclic r (hold r r (hinner p r hp) hr)

end Sound

theorem index_alloc_lt (h : Heap) (c : Cell) : (h.alloc c).1.index < (h.alloc c).2.cells.size := by
  rw [size_alloc]
  exact Nat.lt_succ_self _

end

end Heap

end StringLambda
