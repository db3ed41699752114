import StringLambda.Heap.Compare
import StringLambda.Proofs.Arithmetic.Nesting
import StringLambda.Proofs.Quoting

namespace StringLambda

/-! Nested lists of integers and texts, apart from the places that they have in a heap. A heap may
hold such data in lists that share parts. What it shows of them and which of them it takes for equal
depends on the data alone. -/

inductive Datum where
  | int (i : Int)
  | text (s : String)
  | list (items : List Datum)

namespace Datum

mutual

def spelled : Datum → String
  | int i => intText i
  | text s => Text.quoted s
  | list ds => "[" ++ ", ".intercalate (spelledAll ds) ++ "]"

def spelledAll : List Datum → List String
  | [] => []
  | d :: ds => d.spelled :: spelledAll ds

end

mutual

def height : Datum → Nat
  | int _ | text _ => 0
  | list ds => heightAll ds + 1

def heightAll : List Datum → Nat
  | [] => 0
  | d :: ds => max d.height (heightAll ds)

end

mutual

/-- Every text is one of the characters whose codes have four hexadecimal digits at most. -/
def InBasicPlane : Datum → Prop
  | int _ => True
  | text s => StringLambda.InBasicPlane s.toList
  | list ds => AllInBasicPlane ds

def AllInBasicPlane : List Datum → Prop
  | [] => True
  | d :: ds => d.InBasicPlane ∧ AllInBasicPlane ds

end

mutual

def integers : Datum → List Int
  | int i => [i]
  | text _ => []
  | list ds => integersOfAll ds

def integersOfAll : List Datum → List Int
  | [] => []
  | d :: ds => d.integers ++ integersOfAll ds

end

def IsShort (d : Datum) : Prop :=
  ∀ i ∈ d.integers, ¬ IsLong 10 i

end Datum

namespace Heap

mutual

/-- The datum that a value holds in a heap. -/
inductive Denotes (h : Heap) : Value → Datum → Prop
  | int (i : Int) : Denotes h (.ofInt i) (.int i)
  | text (s : String) : Denotes h (.text s) (.text s)
  | list {r : Ref} {xs : Array Value} {ds : List Datum} :
      h.cell? r = some (.list xs) → DenoteAll h xs.toList ds → Denotes h (.list r) (.list ds)

inductive DenoteAll (h : Heap) : List Value → List Datum → Prop
  | nil : DenoteAll h [] []
  | cons {v : Value} {vs : List Value} {d : Datum} {ds : List Datum} :
      Denotes h v d → DenoteAll h vs ds → DenoteAll h (v :: vs) (d :: ds)

end

/-- What a heap has at its places another one has there as well. -/
def Keeps (h k : Heap) : Prop :=
  ∀ r c, h.cell? r = some c → k.cell? r = some c

variable {h : Heap}

theorem Keeps.refl (h : Heap) : h.Keeps h :=
  fun _ _ hr => hr

theorem Keeps.trans {k l : Heap} (hk : h.Keeps k) (hl : k.Keeps l) : h.Keeps l :=
  fun r c hr => hl r c (hk r c hr)

theorem keeps_alloc (h : Heap) (c : Cell) : h.Keeps (h.alloc c).2 := fun r d hr => by
  rw [cell?_alloc_of_lt h c (lt_size_of_cell? hr), hr]

mutual

theorem Denotes.kept {k : Heap} {v : Value} {d : Datum} (hv : h.Denotes v d) (hk : h.Keeps k) :
    k.Denotes v d := by
  cases hv with
  | int i => exact .int i
  | text s => exact .text s
  | list hcell hall => exact .list (hk _ _ hcell) (hall.kept hk)
termination_by sizeOf d

theorem DenoteAll.kept {k : Heap} {vs : List Value} {ds : List Datum} (hvs : h.DenoteAll vs ds)
    (hk : h.Keeps k) : k.DenoteAll vs ds := by
  cases hvs with
  | nil => exact .nil
  | cons hv hvs => exact .cons (hv.kept hk) (hvs.kept hk)
termination_by sizeOf ds

end

mutual

theorem Denotes.unique {v : Value} {d e : Datum} (hd : h.Denotes v d) (he : h.Denotes v e) :
    d = e := by
  cases hd with
  | int i =>
      cases he
      rfl
  | text s =>
      cases he
      rfl
  | list hcell hall =>
      cases he with
      | list hcell' hall' =>
          cases hcell.symm.trans hcell'
          rw [hall.unique hall']
termination_by sizeOf d

theorem DenoteAll.unique {vs : List Value} {ds es : List Datum} (hds : h.DenoteAll vs ds)
    (hes : h.DenoteAll vs es) : ds = es := by
  cases hds with
  | nil =>
      cases hes
      rfl
  | cons hd hds =>
      cases hes with
      | cons he hes => rw [hd.unique he, hds.unique hes]
termination_by sizeOf ds

end

theorem Denotes.of_same_place {q r : Ref} {d : Datum} (hr : h.Denotes (.list r) d)
    (hplace : r.index = q.index) : h.Denotes (.list q) d := by
  have hcells : h.cell? r = h.cell? q := congrArg (h.cells[·]?) hplace
  cases hr with
  | list hcell hall => exact .list (hcells ▸ hcell) hall

/-- Places of distinct lists, all of them nested more deeply than this. -/
structure Surrounds (h : Heap) (around : List Nat) (n : Nat) : Prop where
  nodup : around.Nodup
  deeper : ∀ j ∈ around, ∃ r d, r.index = j ∧ h.Denotes (.list r) d ∧ n < d.height

namespace Surrounds

variable {around : List Nat} {n : Nat} {r : Ref}

theorem mono {m : Nat} (hsur : h.Surrounds around n) (hle : m ≤ n) : h.Surrounds around m where
  nodup := hsur.nodup
  deeper j hj := by
    obtain ⟨r, d, hplace, hd, hlt⟩ := hsur.deeper j hj
    exact ⟨r, d, hplace, hd, Nat.lt_of_le_of_lt hle hlt⟩

theorem notMem {d : Datum} (hsur : h.Surrounds around d.height) (hr : h.Denotes (.list r) d) :
    r.index ∉ around := by
  intro hmem
  obtain ⟨q, e, hplace, he, hlt⟩ := hsur.deeper r.index hmem
  rw [he.unique (hr.of_same_place hplace.symm)] at hlt
  exact Nat.lt_irrefl _ hlt

theorem cons {ds : List Datum} (hsur : h.Surrounds around (Datum.list ds).height)
    (hr : h.Denotes (.list r) (.list ds)) :
    h.Surrounds (r.index :: around) (Datum.heightAll ds) where
  nodup := List.nodup_cons.mpr ⟨hsur.notMem hr, hsur.nodup⟩
  deeper := by
    have hle : Datum.heightAll ds < (Datum.list ds).height := Nat.lt_succ_self _
    exact List.forall_mem_cons.mpr ⟨⟨r, _, rfl, hr, hle⟩, (hsur.mono (Nat.le_of_lt hle)).deeper⟩

theorem length_le (hsur : h.Surrounds around n) : around.length ≤ h.cells.size := by
  refine length_le_size_of_nodup hsur.nodup fun j hj => ?_
  obtain ⟨r, d, rfl, hd, -⟩ := hsur.deeper j hj
  cases hd with
  | list hcell _ => exact lt_size_of_cell? hcell

end Surrounds

mutual

theorem Denotes.height_add_le {around : List Nat} {v : Value} {d : Datum} (hv : h.Denotes v d)
    (hsur : h.Surrounds around d.height) : d.height + around.length ≤ h.cells.size := by
  cases hv with
  | int i | text s =>
      rw [Datum.height, Nat.zero_add]
      exact hsur.length_le
  | @list r xs ds hcell hall =>
      have hle := hall.height_add_le (hsur.cons (.list hcell hall))
      rw [List.length_cons] at hle
      rw [Datum.height]
      omega
termination_by sizeOf d

theorem DenoteAll.height_add_le {around : List Nat} {vs : List Value} {ds : List Datum}
    (hvs : h.DenoteAll vs ds) (hsur : h.Surrounds around (Datum.heightAll ds)) :
    Datum.heightAll ds + around.length ≤ h.cells.size := by
  cases hvs with
  | nil =>
      rw [Datum.heightAll, Nat.zero_add]
      exact hsur.length_le
  | cons hv hvs =>
      have hhead := hv.height_add_le (hsur.mono (Nat.le_max_left _ _))
      have htail := hvs.height_add_le (hsur.mono (Nat.le_max_right _ _))
      rw [Datum.heightAll]
      omega
termination_by sizeOf ds

end

variable {v w : Value} {d : Datum} {n : Nat}

theorem Denotes.height_lt_depth (hv : h.Denotes v d) : d.height < h.depth :=
  Nat.lt_succ_of_le (hv.height_add_le ⟨.nil, nofun⟩)

theorem DenoteAll.mapM_eq {vs : List Value} {ds : List Datum} {f : Value → Except Defect String}
    (hvs : h.DenoteAll vs ds)
    (hf : ∀ v, ∀ d ∈ ds, h.Denotes v d → f v = .ok d.spelled) :
    vs.mapM f = .ok (Datum.spelledAll ds) := by
  induction vs generalizing ds with
  | nil =>
      cases hvs
      rfl
  | cons v vs ih =>
      cases hvs with
      | cons hv hvs =>
          have htail := ih hvs fun w e he hw => hf w e (List.mem_cons_of_mem _ he) hw
          rw [List.mapM_cons, hf v _ List.mem_cons_self hv, htail]
          rfl

end Heap

namespace Datum

variable {d : Datum} {ds : List Datum}

theorem height_le_of_mem (hd : d ∈ ds) : d.height ≤ heightAll ds := by
  induction hd with
  | head ds => exact Nat.le_max_left _ _
  | tail e _ ih => exact Nat.le_trans ih (Nat.le_max_right _ _)

theorem integers_subset_of_mem (hd : d ∈ ds) : d.integers ⊆ integersOfAll ds := by
  induction hd with
  | head ds => exact List.subset_append_left _ _
  | tail e _ ih => exact List.subset_append_of_subset_right _ ih

theorem IsShort.of_mem (hds : (list ds).IsShort) (hd : d ∈ ds) : d.IsShort := fun i hi =>
  hds i (integers_subset_of_mem hd hi)

end Datum

namespace Heap

variable {h : Heap} {v w : Value} {d : Datum} {n : Nat}

theorem Denotes.displayAt_eq {around : List Nat} (hv : h.Denotes v d) (hd : d.IsShort)
    (hn : d.height < n) (hsur : h.Surrounds around d.height) :
    h.displayAt n around v = .ok d.spelled := by
  induction n generalizing around v d with
  | zero => omega
  | succ n ih =>
      cases hv with
      | int i =>
          have hshort := Number.decimalText_of_not_long (hd i (List.mem_singleton_self i))
          simp [displayAt, Value.displayBy, Value.boundTexts, Value.boundText, Value.ofInt,
            Value.plainDisplay, Number.text, hshort, Datum.spelled, bind, Except.bind, pure,
            Except.pure]
      | text s => rfl
      | @list r xs ds hcell hall =>
          have hlist : h.Denotes (.list r) (.list ds) := .list hcell hall
          have hinner := hsur.cons hlist
          have hitems : (h.items r).mapM (h.displayAt n (r.index :: around)) =
              .ok (Datum.spelledAll ds) := by
            rw [items, hcell]
            refine hall.mapM_eq fun w e he hw => ?_
            have hle := Datum.height_le_of_mem he
            refine ih hw (hd.of_mem he) ?_ (hinner.mono hle)
            rw [Datum.height] at hn
            omega
          simp [displayAt, Value.displayBy, Value.boundTexts, Value.boundText, hsur.notMem hlist,
            hitems, Datum.spelled, bind, Except.bind, pure, Except.pure]

theorem Denotes.render_eq {r : Ref} (hr : h.Denotes (.list r) d) (hd : d.IsShort) :
    h.render (.list r) = .ok d.spelled :=
  hr.displayAt_eq hd hr.height_lt_depth ⟨.nil, nofun⟩

mutual

theorem Denotes.writes {v : Value} {d : Datum} {i : Int} (hv : h.Denotes v d)
    (hi : i ∈ d.integers) : h.Writes v i := by
  cases hv with
  | int j =>
      cases List.mem_singleton.mp hi
      exact .refl
  | text s => cases hi
  | list hcell hall =>
      obtain ⟨w, hw, hwrites⟩ := hall.writes hi
      exact .head (.item rfl (by rwa [items, hcell])) hwrites
termination_by sizeOf d

theorem DenoteAll.writes {vs : List Value} {ds : List Datum} {i : Int} (hvs : h.DenoteAll vs ds)
    (hi : i ∈ Datum.integersOfAll ds) : ∃ w ∈ vs, h.Writes w i := by
  cases hvs with
  | nil => cases hi
  | cons hv hvs =>
      obtain hi | hi := List.mem_append.mp hi
      · exact ⟨_, List.mem_cons_self, hv.writes hi⟩
      · obtain ⟨w, hw, hwrites⟩ := hvs.writes hi
        exact ⟨w, List.mem_cons_of_mem _ hw, hwrites⟩
termination_by sizeOf ds

end

theorem Denotes.render_eq_error {r : Ref} (hr : h.Denotes (.list r) d) (hd : ¬ d.IsShort) :
    h.render (.list r) = .error .wrongValue := by
  obtain ⟨i, hi, hlong⟩ : ∃ i ∈ d.integers, IsLong 10 i := by
    simpa [Datum.IsShort] using hd
  have hwrites : h.WritesLong (.list r) := ⟨i, hlong, hr.writes hi⟩
  cases hdisplay : h.display (.list r) with
  | ok t => exact absurd hwrites ((display_eq_ok_iff _).mp ⟨t, hdisplay⟩)
  | error e =>
      obtain ⟨rfl, -⟩ := display_settles _ e hdisplay
      exact hdisplay

theorem DenoteAll.agree_eq {vs ws : List Value} {ds : List Datum} {test : Value → Value → Bool}
    (hvs : h.DenoteAll vs ds) (hws : h.DenoteAll ws ds)
    (htest : ∀ v w d, h.Denotes v d → h.Denotes w d → d.height ≤ Datum.heightAll ds →
      test v w = true) : agree test vs ws = true := by
  induction vs generalizing ds ws with
  | nil =>
      cases hvs
      cases hws
      rfl
  | cons v vs ih =>
      cases hvs with
      | cons hv hvs =>
          cases hws with
          | cons hw hws =>
              have hhead := htest v _ _ hv hw (Nat.le_max_left _ _)
              have htail := ih hvs hws fun a b e ha hb hle =>
                htest a b e ha hb (Nat.le_trans hle (Nat.le_max_right _ _))
              rw [agree, hhead, htail, Bool.or_true, Bool.and_true]

theorem Denotes.equalAt_eq (hv : h.Denotes v d) (hw : h.Denotes w d) (hn : d.height < n) :
    h.equalAt n v w = true := by
  induction n generalizing v w d with
  | zero => omega
  | succ n ih =>
      cases hv with
      | int i =>
          cases hw
          simp [equalAt, Value.equalPlain, Value.ofInt, Value.numeric?, Number.equal,
            Number.compare?]
      | text s =>
          cases hw
          simp [equalAt, Value.equalPlain]
      | list hr hvs =>
          cases hw with
          | list hs hws =>
              rw [equalAt, items, items, hr, hs]
              refine hvs.agree_eq hws fun a b e ha hb hle => ih ha hb ?_
              rw [Datum.height] at hn
              omega

theorem Denotes.equal_eq (hv : h.Denotes v d) (hw : h.Denotes w d) : h.equal v w = true :=
  hv.equalAt_eq hw hv.height_lt_depth

end Heap

end StringLambda
