import Mathlib.Data.Finset.Card
import Mathlib.Data.Fintype.Card
import StringLambda.Heap.Compare
import StringLambda.Proofs.Preserving.Containers

namespace StringLambda

open Relation

/-! Comparisons in sound heaps. The bound on the nesting of the values compared is never reached, so
that a greater one makes no difference. -/

namespace Heap

variable {h : Heap} {r s : Ref} {v w : Value} {n k : Nat}

def HasInside (h : Heap) (r : Ref) (i : Nat) : Prop :=
  ∃ s : Ref, s.index = i ∧ TransGen h.Contains r s

theorem Sound.not_hasInside_self (hsound : h.Sound) (r : Ref) : ¬ h.HasInside r r.index := by
  rintro ⟨s, hplace, hs⟩
  obtain ⟨q, ⟨c, hc, hq⟩, hqs⟩ := TransGen.head'_iff.mp hs
  have hcell : h.cell? s = h.cell? r := congrArg (h.cells[·]?) hplace
  exact hsound.acyclic s (TransGen.head'_iff.mpr ⟨q, ⟨c, hcell.trans hc, hq⟩, hqs⟩)

open Classical in
noncomputable def height (h : Heap) (r : Ref) : Nat :=
  ((Finset.range h.cells.size).filter (h.HasInside r)).card

theorem Sound.height_lt_size (hsound : h.Sound) (hr : r.index < h.cells.size) :
    h.height r < h.cells.size := by
  classical
  have hsub : (Finset.range h.cells.size).filter (h.HasInside r) ⊂ Finset.range h.cells.size :=
    Finset.filter_ssubset.mpr ⟨r.index, Finset.mem_range.mpr hr, hsound.not_hasInside_self r⟩
  simpa only [height, Finset.card_range] using Finset.card_lt_card hsub

theorem Sound.height_lt (hsound : h.Sound) (hrs : h.Contains r s) : h.height s < h.height r := by
  classical
  refine Finset.card_lt_card (Finset.ssubset_iff_of_subset ?_ |>.mpr ⟨s.index, ?_, ?_⟩)
  · intro i hi
    rw [Finset.mem_filter] at hi ⊢
    obtain ⟨hlt, q, hq, hsq⟩ := hi
    exact ⟨hlt, q, hq, .head hrs hsq⟩
  · exact Finset.mem_filter.mpr
      ⟨Finset.mem_range.mpr (hsound.lt_size_of_contains hrs), s, rfl, .single hrs⟩
  · exact fun hs => hsound.not_hasInside_self s (Finset.mem_filter.mp hs).2

/-- A bound that the nesting inside a value does not reach. -/
structure Outlasts (h : Heap) (n : Nat) (v : Value) : Prop where
  pos : 0 < n
  height : ∀ r, v.container? = some r → r.index < h.cells.size → h.height r + 1 < n

theorem Sound.outlasts (hsound : h.Sound) (hn : h.depth ≤ n) (v : Value) : h.Outlasts n v where
  pos := Nat.lt_of_lt_of_le (Nat.succ_pos _) hn
  height r _ hr := by
    have hheight := hsound.height_lt_size hr
    unfold depth at hn
    omega

theorem Sound.outlasts_inner (hsound : h.Sound) (hv : h.Outlasts (n + 1) v)
    (hr : v.container? = some r) {c : Cell} (hc : h.cell? r = some c) (hw : w ∈ c.values) :
    h.Outlasts n w := by
  have hheight := hv.height r hr (lt_size_of_cell? hc)
  refine ⟨by omega, fun s hs _ => ?_⟩
  have hinner := hsound.height_lt ⟨c, hc, w, hw, hs⟩
  omega

theorem agree_congr {test other : Value → Value → Bool} {xs : List Value}
    (htest : ∀ x ∈ xs, ∀ y, test x y = other x y) (ys : List Value) :
    agree test xs ys = agree other xs ys := by
  induction xs generalizing ys with
  | nil => cases ys <;> rfl
  | cons x xs ih =>
      cases ys with
      | nil => rfl
      | cons y ys =>
          rw [agree, agree, htest x List.mem_cons_self, ih fun z hz => htest z (.tail _ hz)]

theorem all_congr {α : Type} {p q : α → Bool} {xs : List α} (h : ∀ x ∈ xs, p x = q x) :
    xs.all p = xs.all q := by
  induction xs with
  | nil => rfl
  | cons x xs ih =>
      rw [List.all_cons, List.all_cons, h x List.mem_cons_self, ih fun y hy => h y (.tail _ hy)]

theorem Sound.equalAt_congr (hsound : h.Sound) (hn : h.Outlasts n v) (hk : h.Outlasts k v)
    (w : Value) : h.equalAt n v w = h.equalAt k v w := by
  induction n generalizing k v w with
  | zero => exact absurd hn.pos (Nat.lt_irrefl 0)
  | succ n ih =>
      cases k with
      | zero => exact absurd hk.pos (Nat.lt_irrefl 0)
      | succ k =>
          have hinner {r : Ref} (hr : v.container? = some r) {c : Cell} (hc : h.cell? r = some c)
              {x : Value} (hx : x ∈ c.values) (y : Value) : h.equalAt n x y = h.equalAt k x y :=
            ih (hsound.outlasts_inner hn hr hc hx) (hsound.outlasts_inner hk hr hc hx) y
          have hitems {r : Ref} (hr : v.container? = some r) (ys : List Value) :
              agree (h.equalAt n) (h.items r) ys = agree (h.equalAt k) (h.items r) ys := by
            refine agree_congr (fun x hx => ?_) ys
            obtain ⟨c, hc, hmem⟩ := exists_cell?_of_mem_items hx
            exact hinner hr hc hmem
          cases v with
          | list r => cases w <;> first | exact hitems rfl _ | rfl
          | tuple r => cases w <;> first | exact hitems rfl _ | rfl
          | dict r =>
              cases w with
              | dict s =>
                  refine congrArg (_ && ·) (all_congr fun e he => ?_)
                  obtain ⟨c, hc, hmem⟩ := exists_cell?_of_mem_entries he
                  cases Entry.find? e.key (h.entries s) with
                  | none => rfl
                  | some y => exact congrArg (e.value.same y || ·) (hinner rfl hc hmem y)
              | _ => rfl
          | record r =>
              cases w with
              | record s =>
                  refine congrArg (if r.isRecord && s.isRecord then _ && · else _)
                    (all_congr fun field hfield => ?_)
                  obtain ⟨c, hc, hmem⟩ := exists_cell?_of_mem_fields hfield
                  obtain ⟨name, x⟩ := field
                  dsimp only
                  cases (h.fields s).lookup name with
                  | none => rfl
                  | some y => exact congrArg (x.same y || ·) (hinner rfl hc hmem y)
              | _ => rfl
          | _ => cases w <;> rfl

theorem mapM_congr {f g : Value → Option Key} {xs : List Value} (h : ∀ x ∈ xs, f x = g x) :
    xs.mapM f = xs.mapM g := by
  induction xs with
  | nil => rfl
  | cons x xs ih =>
      rw [List.mapM_cons, List.mapM_cons, h x List.mem_cons_self, ih fun y hy => h y (.tail _ hy)]

theorem Sound.keyAt?_congr (hsound : h.Sound) (hn : h.Outlasts n v) (hk : h.Outlasts k v) :
    h.keyAt? n v = h.keyAt? k v := by
  induction n generalizing k v with
  | zero => exact absurd hn.pos (Nat.lt_irrefl 0)
  | succ n ih =>
      cases k with
      | zero => exact absurd hk.pos (Nat.lt_irrefl 0)
      | succ k =>
          cases v with
          | tuple r =>
              refine congrArg (Option.map Key.ofItems) (mapM_congr fun x hx => ?_)
              obtain ⟨c, hc, hmem⟩ := exists_cell?_of_mem_items hx
              exact ih (hsound.outlasts_inner hn rfl hc hmem)
                (hsound.outlasts_inner hk rfl hc hmem)
          | _ => rfl

theorem Sound.equalAt_eq (hsound : h.Sound) (hn : h.depth ≤ n) (v w : Value) :
    h.equalAt n v w = h.equal v w :=
  hsound.equalAt_congr (hsound.outlasts hn v) (hsound.outlasts le_rfl v) w

theorem Sound.keyAt?_eq (hsound : h.Sound) (hn : h.depth ≤ n) (v : Value) :
    h.keyAt? n v = h.key? v :=
  hsound.keyAt?_congr (hsound.outlasts hn v) (hsound.outlasts le_rfl v)

end Heap

end StringLambda
