import Mathlib.Data.List.Nodup
import Mathlib.Data.List.Perm.Subperm
import Mathlib.Logic.Relation
import StringLambda.Heap.Display
import StringLambda.Proofs.Numerals

open StringLambda.Parser (bind_eq_ok_iff)

namespace StringLambda

open Relation

/-! Texts of nested values. A value has a text unless an integer that is written in it has too many
digits, or it is a list or a tuple that is nested in itself. -/

def Value.sequence? : Value → Option Ref
  | .list r | .tuple r => some r
  | _ => none

def Value.container? : Value → Option Ref
  | .list r | .tuple r | .dict r | .record r => some r
  | _ => none

theorem Value.container?_of_sequence? {v : Value} {r : Ref} (h : v.sequence? = some r) :
    v.container? = some r := by
  cases v <;> first | exact h | cases h

/-- A computation that fails at most at a value that is written too long, and then for a cause. -/
def Settles {α : Type} (cause : Prop) (x : Except Defect α) : Prop :=
  ∀ d, x = .error d → d = .wrongValue ∧ cause

namespace Settles

variable {α β : Type} {cause : Prop}

theorem ok (a : α) : Settles cause (.ok a : Except Defect α) := nofun

theorem mono {cause' : Prop} {x : Except Defect α} (h : cause → cause') (hx : Settles cause x) :
    Settles cause' x := fun d hd =>
  ⟨(hx d hd).1, h (hx d hd).2⟩

theorem bind {x : Except Defect α} {f : α → Except Defect β} (hx : Settles cause x)
    (hf : ∀ a, Settles cause (f a)) : Settles cause (x >>= f) := by
  cases x with
  | error d =>
    intro d' hd
    cases hd
    exact hx d rfl
  | ok a => exact hf a

theorem mapM {f : α → Except Defect β} {xs : List α} (hf : ∀ x ∈ xs, Settles cause (f x)) :
    Settles cause (xs.mapM f) := by
  induction xs with
  | nil => exact .ok []
  | cons x xs ih =>
    rw [List.mapM_cons]
    exact .bind (hf x List.mem_cons_self) fun y =>
      .bind (ih fun z hz => hf z (List.mem_cons_of_mem _ hz)) fun ys => .ok (y :: ys)

end Settles

theorem exists_of_mapM_eq_ok {α β : Type} {f : α → Except Defect β} {xs : List α} {ys : List β}
    (h : xs.mapM f = .ok ys) : ∀ x ∈ xs, ∃ y, f x = .ok y := by
  induction xs generalizing ys with
  | nil => nofun
  | cons x xs ih =>
    rw [List.mapM_cons] at h
    obtain ⟨y, hy, h⟩ := bind_eq_ok_iff.mp h
    obtain ⟨zs, hzs, -⟩ := bind_eq_ok_iff.mp h
    exact List.forall_mem_cons.mpr ⟨⟨y, hy⟩, ih hzs⟩

theorem last_visit {α : Type} {R : α → α → Prop} {P : α → Prop} {a b : α}
    (h : ReflTransGen R a b) :
    ReflTransGen (fun x y => R x y ∧ ¬ P x) a b ∨
      ∃ u w, P u ∧ R u w ∧ ReflTransGen (fun x y => R x y ∧ ¬ P x) w b := by
  induction h using ReflTransGen.head_induction_on with
  | refl => exact .inl .refl
  | @head a c hac _ ih =>
    obtain hfree | hlast := ih
    · by_cases ha : P a
      · exact .inr ⟨a, c, ha, hac, hfree⟩
      · exact .inl (.head ⟨hac, ha⟩ hfree)
    · exact .inr hlast

/-- The values that the text of a container is made of, by what is stored. -/
inductive Cell.Shows : Cell → Value → Prop
  | listItem {xs : Array Value} {w : Value} : w ∈ xs.toList → Shows (.list xs) w
  | tupleItem {xs : List Value} {w : Value} : w ∈ xs → Shows (.tuple xs) w
  | label {es : List Entry} {e : Entry} : e ∈ es → Shows (.dict es) e.label
  | value {es : List Entry} {e : Entry} : e ∈ es → Shows (.dict es) e.value
  | field {fs : List (String × Value)} {f : String × Value} : f ∈ fs → f.1.isEmpty = false →
      Shows (.record fs) f.2

namespace Heap

variable {h : Heap}

/-- The text of a value is made of the texts of others: of the items of a list or a tuple, the
labels and values of a dictionary, the named fields of a record, and a function and what it is bound
to. -/
inductive Part (h : Heap) : Value → Value → Prop
  | item {v w : Value} {r : Ref} : v.sequence? = some r → w ∈ h.items r → Part h v w
  | label {r : Ref} {e : Entry} : e ∈ h.entries r → Part h (.dict r) e.label
  | value {r : Ref} {e : Entry} : e ∈ h.entries r → Part h (.dict r) e.value
  | field {r : Ref} {f : String × Value} : r.isRecord = true → f ∈ h.fields r →
      f.1.isEmpty = false → Part h (.record r) f.2
  | function {id : Nat} {f x : Value} : Part h (.bound id f x) f
  | receiver {id : Nat} {f x : Value} : Part h (.bound id f x) x

def Writes (h : Heap) (v : Value) (i : Int) : Prop :=
  ReflTransGen h.Part v (.ofInt i)

def WritesLong (h : Heap) (v : Value) : Prop :=
  ∃ i, IsLong 10 i ∧ h.Writes v i

theorem WritesLong.of_part {v w : Value} (hvw : h.Part v w) (hw : h.WritesLong w) :
    h.WritesLong v := by
  obtain ⟨i, hi, hpath⟩ := hw
  exact ⟨i, hi, .head hvw hpath⟩

theorem writesLong_ofInt {i : Int} (hi : IsLong 10 i) : h.WritesLong (.ofInt i) :=
  ⟨i, hi, .refl⟩

theorem decimalText_settles (i : Int) :
    Settles (h.WritesLong (.ofInt i)) (Number.decimalText i) := by
  by_cases hi : IsLong 10 i
  · rw [Number.decimalText_of_long hi]
    rintro d ⟨⟩
    exact ⟨rfl, writesLong_ofInt hi⟩
  · rw [Number.decimalText_of_not_long hi]
    exact .ok _

theorem plainDisplay_settles (v : Value) : Settles (h.WritesLong v) v.plainDisplay := by
  unfold Value.plainDisplay
  split
  case h_3 n =>
    cases n with
    | int i => exact decimalText_settles i
    | float x => exact .ok _
  all_goals exact .ok _

theorem boundTexts_settles {display : Value → Except Defect String}
    (hdisplay : ∀ v, Settles (h.WritesLong v) (display v)) (v : Value) :
    Settles (h.WritesLong v) (v.boundTexts display) := by
  fun_induction Value.boundTexts display v with
  | case1 id function receiver ihfunction ihreceiver =>
    exact .bind (ihfunction.mono (.of_part .function)) fun front =>
      .bind (ihreceiver.mono (.of_part .receiver)) fun last => .ok _
  | case2 v => exact .bind (hdisplay v) fun t => .ok _

theorem displayAt_settles (n : Nat) (around : List Nat) (v : Value) :
    Settles (h.WritesLong v) (h.displayAt n around v) := by
  induction n generalizing around v with
  | zero => exact plainDisplay_settles v
  | succ n ih =>
    have hpart {v w : Value} (r : Ref) (hvw : h.Part v w) :
        Settles (h.WritesLong v) (h.displayAt n (r.index :: around) w) :=
      (ih (r.index :: around) w).mono (.of_part hvw)
    refine .bind (boundTexts_settles (fun v => ?_) v) fun texts => .ok _
    cases v with
    | list r | tuple r =>
      dsimp only
      split
      next => exact .ok _
      next => exact .bind (.mapM fun w hw => hpart r (.item rfl hw)) fun texts => .ok _
    | dict r =>
      dsimp only
      split
      next => exact .ok _
      next =>
        refine .bind (.mapM fun e he => ?_) fun texts => .ok _
        exact .bind (hpart r (.label he)) fun label => .bind (hpart r (.value he)) fun text => .ok _
    | record r =>
      dsimp only
      split
      next => exact .ok _
      next hrecord =>
        split
        next => exact .ok _
        next =>
          refine .bind (.mapM fun f hf => ?_) fun texts => .ok _
          obtain ⟨hmem, hname⟩ := List.mem_filter.mp hf
          exact .bind (hpart r (.field (by simpa using hrecord) hmem (by simpa using hname)))
            fun text => .ok _
    | _ => exact plainDisplay_settles _

/-- What is part of a container is part of what is stored at its place. -/
theorem Part.exists_cell {v w : Value} {r : Ref} (hvw : h.Part v w) (hr : v.container? = some r) :
    ∃ c, h.cell? r = some c ∧ c.Shows w := by
  cases hvw with
  | item hseq hw =>
    obtain rfl := Option.some.inj ((Value.container?_of_sequence? hseq).symm.trans hr)
    unfold items at hw
    split at hw
    next hcell => exact ⟨_, hcell, .listItem hw⟩
    next hcell => exact ⟨_, hcell, .tupleItem hw⟩
    next => cases hw
  | label he | value he =>
    cases hr
    unfold entries at he
    split at he
    next hcell => exact ⟨_, hcell, by constructor; exact he⟩
    next => cases he
  | field _ hf hname =>
    cases hr
    unfold fields at hf
    split at hf
    next hcell => exact ⟨_, hcell, .field hf hname⟩
    next => cases hf
  | function | receiver => cases hr

theorem Part.of_cell {v w x : Value} {r : Ref} {c : Cell} (hvx : h.Part v x)
    (hr : v.container? = some r) (hc : h.cell? r = some c) (hw : c.Shows w) : h.Part v w := by
  cases hvx with
  | item hseq hx =>
    obtain rfl := Option.some.inj ((Value.container?_of_sequence? hseq).symm.trans hr)
    refine .item hseq ?_
    rw [items, hc] at hx ⊢
    cases hw with
    | listItem hw | tupleItem hw => exact hw
    | label | value | field => cases hx
  | label he | value he =>
    cases hr
    rw [entries, hc] at he
    cases hw with
    | label hw => exact .label (by rwa [entries, hc])
    | value hw => exact .value (by rwa [entries, hc])
    | listItem | tupleItem | field => cases he
  | field hrecord hf =>
    cases hr
    rw [fields, hc] at hf
    cases hw with
    | field hw hname => exact .field hrecord (by rwa [fields, hc]) hname
    | listItem | tupleItem | label | value => cases hf
  | function | receiver => cases hr

/-- What is part of a container is part of whatever is at the same place, if that has parts. -/
theorem Part.of_same_place {u v w x : Value} {q r : Ref} (hu : h.Part u w) (hv : h.Part v x)
    (hq : u.container? = some q) (hr : v.container? = some r) (hplace : q.index = r.index) :
    h.Part v w := by
  obtain ⟨c, hc, hw⟩ := hu.exists_cell hq
  have hcell : h.cell? q = h.cell? r := congrArg (h.cells[·]?) hplace
  exact hv.of_cell hr (hcell.symm.trans hc) hw

theorem displayBy_eq_ok {display : Value → Except Defect String} {v : Value} {r : Ref} {t : String}
    (hv : v.container? = some r) (h : v.displayBy display = .ok t) : display v = .ok t := by
  cases v with
  | list r | tuple r | dict r | record r =>
    obtain ⟨texts, htexts, ht⟩ := bind_eq_ok_iff.mp h
    obtain ⟨text, htext, hsingle⟩ := bind_eq_ok_iff.mp htexts
    cases hsingle
    cases ht
    exact htext
  | _ => cases hv

theorem exists_displayAt_of_part {n : Nat} {around : List Nat} {v w : Value} {r : Ref} {t : String}
    (hv : v.container? = some r) (hr : r.index ∉ around) (hvw : h.Part v w)
    (ht : h.displayAt (n + 1) around v = .ok t) :
    ∃ t, h.displayAt n (r.index :: around) w = .ok t := by
  have hdisplay := displayBy_eq_ok hv ht
  have hfree : around.contains r.index = false := by simpa using hr
  cases hvw with
  | @item v w q hq hw =>
    cases v with
    | list q | tuple q =>
      cases hv
      dsimp only at hdisplay
      rw [if_neg (by simpa using hr)] at hdisplay
      obtain ⟨texts, htexts, -⟩ := bind_eq_ok_iff.mp hdisplay
      cases hq
      exact exists_of_mapM_eq_ok htexts w hw
    | _ => cases hq
  | @label q e he =>
    cases hv
    dsimp only at hdisplay
    rw [if_neg (by simpa using hr)] at hdisplay
    obtain ⟨texts, htexts, -⟩ := bind_eq_ok_iff.mp hdisplay
    obtain ⟨text, htext⟩ := exists_of_mapM_eq_ok htexts e he
    obtain ⟨label, hlabel, -⟩ := bind_eq_ok_iff.mp htext
    exact ⟨label, hlabel⟩
  | @value q e he =>
    cases hv
    dsimp only at hdisplay
    rw [if_neg (by simpa using hr)] at hdisplay
    obtain ⟨texts, htexts, -⟩ := bind_eq_ok_iff.mp hdisplay
    obtain ⟨text, htext⟩ := exists_of_mapM_eq_ok htexts e he
    obtain ⟨_, -, htext⟩ := bind_eq_ok_iff.mp htext
    obtain ⟨value, hvalue, -⟩ := bind_eq_ok_iff.mp htext
    exact ⟨value, hvalue⟩
  | @field q f hrecord hf hname =>
    cases hv
    dsimp only at hdisplay
    rw [if_neg (by simpa using hrecord), if_neg (by simpa using hr)] at hdisplay
    obtain ⟨texts, htexts, -⟩ := bind_eq_ok_iff.mp hdisplay
    obtain ⟨text, htext⟩ := exists_of_mapM_eq_ok htexts f
      (List.mem_filter.mpr ⟨hf, by simpa using hname⟩)
    obtain ⟨value, hvalue, -⟩ := bind_eq_ok_iff.mp htext
    exact ⟨value, hvalue⟩
  | function | receiver => cases hv

theorem length_le_size_of_nodup {around : List Nat} (hnodup : around.Nodup)
    (hsize : ∀ i ∈ around, i < h.cells.size) : around.length ≤ h.cells.size := by
  have hsub : around ⊆ List.range h.cells.size := fun i hi => List.mem_range.mpr (hsize i hi)
  simpa using (List.subperm_of_subset hnodup hsub).length_le

theorem lt_size_of_cell? {r : Ref} {c : Cell} (hr : h.cell? r = some c) :
    r.index < h.cells.size :=
  (Array.getElem?_eq_some_iff.mp hr).1

theorem Part.lt_size {v w : Value} {r : Ref} (hvw : h.Part v w) (hr : v.container? = some r) :
    r.index < h.cells.size := by
  obtain ⟨c, hc, -⟩ := hvw.exists_cell hr
  exact lt_size_of_cell? hc

def PartOutside (h : Heap) (around : List Nat) (v w : Value) : Prop :=
  h.Part v w ∧ ∀ r, v.container? = some r → r.index ∉ around

/-- The containers around a value are distinct places of the heap, so that the fuel outlasts them.
What is written in a container is written without coming back to it. -/
theorem displayAt_ne_ok (n : Nat) {around : List Nat} {v : Value} {i : Int} (hnodup : around.Nodup)
    (hsize : ∀ j ∈ around, j < h.cells.size) (hlength : around.length + n = h.depth)
    (hi : IsLong 10 i) (hpath : ReflTransGen (h.PartOutside around) v (.ofInt i)) (t : String) :
    h.displayAt n around v ≠ .ok t := by
  induction n generalizing around v t with
  | zero =>
    have hle := length_le_size_of_nodup hnodup hsize
    simp only [depth] at hlength
    omega
  | succ n ih =>
    induction hpath using ReflTransGen.head_induction_on generalizing t with
    | refl =>
      intro ht
      obtain ⟨texts, htexts, -⟩ := bind_eq_ok_iff.mp ht
      obtain ⟨text, htext, -⟩ := bind_eq_ok_iff.mp htexts
      cases (Number.decimalText_of_long hi).symm.trans htext
    | @head v w hstep hrest hw =>
      intro ht
      cases hv : v.container? with
      | none =>
        obtain ⟨hpart, -⟩ := hstep
        cases hpart with
        | item hseq => cases (Value.container?_of_sequence? hseq).symm.trans hv
        | label | value | field => cases hv
        | function =>
          obtain ⟨texts, htexts, -⟩ := bind_eq_ok_iff.mp ht
          obtain ⟨front, hfront, -⟩ := bind_eq_ok_iff.mp htexts
          exact hw _ (bind_eq_ok_iff.mpr ⟨front, hfront, rfl⟩)
        | receiver =>
          obtain ⟨texts, htexts, -⟩ := bind_eq_ok_iff.mp ht
          obtain ⟨_, -, htexts⟩ := bind_eq_ok_iff.mp htexts
          obtain ⟨last, hlast, -⟩ := bind_eq_ok_iff.mp htexts
          exact hw _ (bind_eq_ok_iff.mpr ⟨last, hlast, rfl⟩)
      | some r =>
        have hr := hstep.2 r hv
        have hinner {x : Value} (hx : h.Part v x)
            (hpath : ReflTransGen (fun u w => h.PartOutside around u w ∧
              ¬ ∃ q, u.container? = some q ∧ q.index = r.index) x (.ofInt i)) : False := by
          obtain ⟨t, ht⟩ := exists_displayAt_of_part hv hr hx ht
          refine ih (List.nodup_cons.mpr ⟨hr, hnodup⟩)
            (List.forall_mem_cons.mpr ⟨hx.lt_size hv, hsize⟩) ?_ ?_ t ht
          · simp only [List.length_cons]
            omega
          · refine .mono (fun u w ⟨⟨hpart, hout⟩, hplace⟩ => ⟨hpart, fun q hq => ?_⟩) _ _ hpath
            exact List.not_mem_cons_of_ne_of_not_mem (fun h => hplace ⟨q, hq, h⟩) (hout q hq)
        obtain hfree | ⟨u, x, ⟨q, hq, hplace⟩, hux, hfree⟩ := last_visit hrest
          (P := fun u => ∃ q, u.container? = some q ∧ q.index = r.index)
        · exact hinner hstep.1 hfree
        · exact hinner (hux.1.of_same_place hstep.1 hq hv hplace) hfree

theorem display_settles (v : Value) : Settles (h.WritesLong v) (h.display v) :=
  displayAt_settles h.depth [] v

theorem display_eq_ok_iff (v : Value) : (∃ t, h.display v = .ok t) ↔ ¬ h.WritesLong v := by
  constructor
  · rintro ⟨t, ht⟩ ⟨i, hi, hpath⟩
    refine displayAt_ne_ok h.depth .nil nofun (by simp) hi ?_ t ht
    refine .mono (fun v w hvw => ?_) _ _ hpath
    exact ⟨hvw, fun _ _ => List.not_mem_nil⟩
  · intro hv
    cases hdisplay : h.display v with
    | ok t => exact ⟨t, rfl⟩
    | error d => exact absurd (display_settles v d hdisplay).2 hv

def Nests (h : Heap) (r s : Ref) : Prop :=
  ∃ v ∈ h.items r, v.sequence? = some s

/-- No list or tuple in a value is nested in itself. In a text other containers are cut short where
they come again. -/
def Acyclic (h : Heap) (v : Value) : Prop :=
  ∀ r s, v.sequence? = some r → Relation.ReflTransGen h.Nests r s →
    ¬ Relation.TransGen h.Nests s s

theorem Acyclic.item {r : Ref} {v w : Value} (hv : h.Acyclic v) (hr : v.sequence? = some r)
    (hw : w ∈ h.items r) : h.Acyclic w := fun _ s ht hts =>
  hv r s hr (.head ⟨w, hw, ht⟩ hts)

theorem nests_of_same_place {q r s : Ref} (hplace : q.index = r.index) (hqs : h.Nests q s) :
    h.Nests r s := by
  have hcell : h.cell? q = h.cell? r := congrArg (h.cells[·]?) hplace
  rwa [Nests, items, ← hcell]

theorem textAt_settles (n : Nat) (around : List Ref) {v : Value}
    (hnodup : (around.map Ref.index).Nodup) (hsize : ∀ r ∈ around, r.index < h.cells.size)
    (hlength : around.length + n = h.depth)
    (hnests : ∀ r ∈ around, ∀ s, v.sequence? = some s → Relation.TransGen h.Nests r s)
    (hv : h.Acyclic v) : Settles (h.WritesLong v) (h.textAt n v) := by
  induction n generalizing around v with
  | zero =>
    have hle := length_le_size_of_nodup hnodup (List.forall_mem_map.mpr hsize)
    simp only [depth, List.length_map] at hlength hle
    omega
  | succ n ih =>
    have hitem {r : Ref} (hr : v.sequence? = some r) (w : Value) (hw : w ∈ h.items r) :
        Settles (h.WritesLong v) (h.textAt n w) := by
      have hpart : h.Part v w := .item hr hw
      refine .mono (.of_part hpart) (ih (r :: around) (List.nodup_cons.mpr ⟨?_, hnodup⟩) ?_ ?_ ?_
        (hv.item hr hw))
      · intro hmem
        obtain ⟨q, hq, hplace⟩ := List.mem_map.mp hmem
        obtain ⟨x, hqx, hxr⟩ := TransGen.head'_iff.mp (hnests q hq r hr)
        exact hv r r hr .refl (TransGen.head'_iff.mpr ⟨x, nests_of_same_place hplace hqx, hxr⟩)
      · exact List.forall_mem_cons.mpr
          ⟨hpart.lt_size (Value.container?_of_sequence? hr), hsize⟩
      · simp only [List.length_cons]
        omega
      · exact List.forall_mem_cons.mpr ⟨fun s hs => .single ⟨w, hw, hs⟩,
          fun q hq s hs => (hnests q hq r hr).tail ⟨w, hw, hs⟩⟩
    cases v with
    | list r | tuple r =>
      refine .bind (.mapM fun w hw => ?_) fun texts => .ok _
      cases w with
      | null => exact .ok _
      | _ => exact hitem rfl _ hw
    | text | null | bool => exact .ok _
    | number n =>
      cases n with
      | int i => exact decimalText_settles i
      | float x => exact .ok _
    | _ => exact display_settles _

theorem text_settles {v : Value} (hv : h.Acyclic v) : Settles (h.WritesLong v) (h.text v) :=
  textAt_settles h.depth [] .nil nofun (by simp) nofun hv

theorem WritesLong.exists_part {v : Value} (hv : h.WritesLong v)
    (hint : ∀ i, v ≠ .number (.int i)) : ∃ w, h.Part v w ∧ h.WritesLong w := by
  obtain ⟨i, hi, hpath⟩ := hv
  cases hpath using ReflTransGen.head_induction_on with
  | refl => exact absurd rfl (hint i)
  | head hvw hrest => exact ⟨_, hvw, i, hi, hrest⟩

theorem WritesLong.elim {v : Value} (hlong : h.WritesLong v) (hv : v.container? = none)
    (hbound : ∀ id f x, v ≠ .bound id f x) (hint : ∀ i, v ≠ .number (.int i)) : False := by
  obtain ⟨w, hvw, -⟩ := hlong.exists_part hint
  cases hvw with
  | item hseq => cases (Value.container?_of_sequence? hseq).symm.trans hv
  | label | value | field => cases hv
  | function | receiver => exact hbound _ _ _ rfl

theorem textAt_ne_ok {n : Nat} {v : Value} (hv : h.WritesLong v) (t : String) :
    h.textAt n v ≠ .ok t := by
  induction n generalizing v t with
  | zero => nofun
  | succ n ih =>
    intro ht
    cases v with
    | list r | tuple r =>
      obtain ⟨w, hvw, hw⟩ := hv.exists_part nofun
      obtain ⟨hseq, hmem⟩ := hvw
      cases hseq
      obtain ⟨texts, htexts, -⟩ := bind_eq_ok_iff.mp ht
      obtain ⟨t, ht⟩ := exists_of_mapM_eq_ok htexts w hmem
      cases w with
      | null => exact hw.elim rfl nofun nofun
      | _ => exact ih hw t ht
    | text | null | bool => exact hv.elim rfl nofun nofun
    | number n =>
      cases n with
      | float x => exact hv.elim rfl nofun nofun
      | int i =>
        refine (display_eq_ok_iff _).mp ⟨t, ?_⟩ hv
        exact bind_eq_ok_iff.mpr ⟨[t], bind_eq_ok_iff.mpr ⟨t, ht, rfl⟩, rfl⟩
    | _ => exact (display_eq_ok_iff _).mp ⟨t, ht⟩ hv

theorem text_eq_ok_iff {v : Value} (hv : h.Acyclic v) :
    (∃ t, h.text v = .ok t) ↔ ¬ h.WritesLong v := by
  constructor
  · rintro ⟨t, ht⟩ hlong
    exact textAt_ne_ok hlong t ht
  · intro hlong
    cases htext : h.text v with
    | ok t => exact ⟨t, rfl⟩
    | error d => exact absurd (text_settles hv d htext).2 hlong

end Heap

end StringLambda
