import StringLambda.Evaluate
import StringLambda.Proofs.Preserving.Containers
import StringLambda.Proofs.Stops

namespace StringLambda

/-! Operations on values that do no more than make new containers. Each comes to an end, and what it
gives is in the heap that it leaves. -/

/-- The stops of what goes on for ever: a bound that is used up, and nesting without end. -/
def Stop.isEndless : Stop → Bool
  | .unfinished | .fault (.builtin .endlessNesting) => true
  | _ => false

theorem Stop.isEndless_located (place : Option Position) (stop : Stop) :
    (stop.located place).isEndless = stop.isEndless := by
  cases stop with
  | unfinished => rfl
  | fault f =>
      cases f with
      | evaluation issue place => cases place <;> rfl
      | _ => rfl

/-- From a state an action comes to an end, in a state that may follow it, and what it gives there
is as told. -/
def Ends {σ α : Type} (follows : σ → σ → Prop) (act : EStateM Stop σ α) (s : σ)
    (post : α → σ → Prop) : Prop :=
  match act s with
  | .ok a t => follows s t ∧ post a t
  | .error stop t => follows s t ∧ stop.isEndless = false

namespace Ends

variable {σ α β : Type} {follows : σ → σ → Prop} {act : EStateM Stop σ α} {s : σ}
  {post : α → σ → Prop}

theorem pure {a : α} (hs : follows s s) (ha : post a s) :
    Ends follows (Pure.pure a) s post := ⟨hs, ha⟩

theorem throw {stop : Stop} (hs : follows s s) (hstop : stop.isEndless = false) :
    Ends follows (MonadExcept.throw stop) s post := ⟨hs, hstop⟩

theorem bind [IsTrans σ follows] {f : α → EStateM Stop σ β} {post' : β → σ → Prop}
    (h : Ends follows act s post)
    (hf : ∀ a t, follows s t → post a t → Ends follows (f a) t post') :
    Ends follows (act >>= f) s post' := by
  unfold Ends at h
  cases hact : act s with
  | ok a t =>
      rw [hact] at h
      have hnext := hf a t h.1 h.2
      unfold Ends at hnext ⊢
      simp only [Bind.bind, EStateM.bind, hact]
      cases hfa : f a t with
      | ok b u =>
          rw [hfa] at hnext
          exact ⟨IsTrans.trans _ _ _ h.1 hnext.1, hnext.2⟩
      | error stop u =>
          rw [hfa] at hnext
          exact ⟨IsTrans.trans _ _ _ h.1 hnext.1, hnext.2⟩
  | error stop t =>
      rw [hact] at h
      unfold Ends
      simp only [Bind.bind, EStateM.bind, hact]
      exact h

end Ends

/-- A result, or a failure other than nesting without end. -/
abbrev Terminates {α : Type} (x : Except Defect α) : Prop :=
  x ≠ .error .endlessNesting

theorem Terminates.bind {α β : Type} {x : Except Defect α} {f : α → Except Defect β}
    (hx : Terminates x) (hf : ∀ a, Terminates (f a)) : Terminates (x >>= f) := by
  cases x with
  | ok a => exact hf a
  | error d => exact fun h => hx (congrArg Except.error (Except.error.inj h))

namespace Number

theorem toFloat_terminates (a : Number) : Terminates a.toFloat := by
  unfold toFloat
  split
  next => split <;> exact nofun
  next => exact nofun

theorem lift_terminates (onInts : Int → Int → Int) (onFloats : Float → Float → Float)
    (a b : Number) : Terminates (lift onInts onFloats a b) := by
  unfold lift
  split
  next => exact nofun
  next => exact .bind (toFloat_terminates _) fun x => .bind (toFloat_terminates _) fun y => nofun

theorem quotient_terminates (a b : Int) : Terminates (quotient a b) := by
  unfold quotient
  dsimp only
  split <;> exact nofun

theorem div_terminates (a b : Number) : Terminates (a.div b) := by
  unfold div
  split
  next => exact .bind (quotient_terminates _ _) fun x => nofun
  next => exact .bind (toFloat_terminates _) fun x => .bind (toFloat_terminates _) fun y => nofun

theorem floatRemainder_terminates (x y : Float) : Terminates (floatRemainder x y) := by
  unfold floatRemainder
  split
  next => exact nofun
  next =>
    split
    next => exact nofun
    next =>
      split
      next => exact nofun
      next => exact nofun
      next =>
        dsimp only
        split <;> exact nofun

theorem truncateFloat_terminates (x : Float) : Terminates (truncateFloat x) := by
  unfold truncateFloat
  split
  next => exact nofun
  next => split <;> exact nofun

theorem mod_terminates (a b : Number) : Terminates (a.mod b) := by
  refine .bind (toFloat_terminates _) fun x => .bind (toFloat_terminates _) fun y =>
    .bind (floatRemainder_terminates x y) fun r => ?_
  split
  next => exact .bind (truncateFloat_terminates r) fun i => nofun
  next => exact nofun

theorem complexPower_terminates (x y : Float) : Terminates (complexPower x y) := by
  unfold complexPower
  dsimp only
  split <;> exact nofun

theorem finitePower_terminates (x y : Float) : Terminates (finitePower x y) := by
  unfold finitePower
  dsimp only
  split <;> exact nofun

theorem floatPower_terminates (x y : Float) : Terminates (floatPower x y) := by
  unfold floatPower
  dsimp only
  repeat' split
  all_goals first
    | exact complexPower_terminates x y
    | exact finitePower_terminates x y
    | exact nofun

theorem pow_terminates (a b : Number) : Terminates (a.pow b) := by
  unfold pow
  split
  next =>
    split
    next => exact nofun
    next =>
      exact .bind (toFloat_terminates _) fun x => .bind (toFloat_terminates _) fun y =>
        floatPower_terminates x y
  next =>
    exact .bind (toFloat_terminates _) fun x => .bind (toFloat_terminates _) fun y =>
      floatPower_terminates x y

end Number

def Arena.Grown (s t : Arena) : Prop :=
  s.heap.Grown t.heap

instance : IsTrans Arena Arena.Grown := ⟨fun _ _ _ h h' => Heap.Grown.trans h h'⟩

/-- An operation that comes to an end and only makes new containers, with a result as told. -/
abbrev Act.Grows {α : Type} (act : Act α) (s : Arena) (post : α → Heap → Prop) : Prop :=
  Ends Arena.Grown act s fun a t => post a t.heap

theorem Value.holdsAny_complexPart? (h : Heap) (re im : Float) (name : String) :
    h.HoldsAny (complexPart? re im name) := by
  unfold complexPart?
  split
  next => exact Heap.holdsAny_some (Heap.holds_of_refs rfl)
  next => exact Heap.holdsAny_some (Heap.holds_of_refs rfl)
  next => exact h.holdsAny_none

section

variable {s : Arena} (hs : s.heap.Sound)
include hs

namespace Act

variable {α : Type} {post : α → Arena → Prop}

theorem raise_grows (issue : EvalIssue) : Ends Arena.Grown (raise issue) s post :=
  .throw (.refl hs) rfl

theorem defect_grows {d : Defect} (hd : d ≠ .endlessNesting) :
    Ends Arena.Grown (defect d) s post := by
  refine .throw (.refl hs) ?_
  cases d <;> first | rfl | exact absurd rfl hd

theorem ofDefect_grows {x : Except Defect α} (hx : Terminates x) :
    Grows (ofDefect x) s fun _ _ => True := by
  cases x with
  | ok a => exact .pure (.refl hs) trivial
  | error d => exact defect_grows hs fun hd => hx (congrArg _ hd)

theorem heap_grows : Grows heap s fun heap h => heap = h :=
  ⟨.refl hs, rfl⟩

theorem alloc_grows {c : Cell} (hc : ∀ v ∈ c.values, s.heap.Holds v) :
    Grows (alloc c) s fun r h => r.index < h.cells.size :=
  ⟨hs.alloc hc, s.heap.index_alloc_lt c⟩

theorem newList_grows {items : List Value} (hitems : s.heap.HoldsAll items) :
    Grows (newList items) s fun v h => h.Holds v := by
  refine .bind (alloc_grows hs hitems) fun r t ht hr => ?_
  exact .pure (.refl ht.sound) (List.forall_mem_singleton.mpr hr)

theorem newTuple_grows {items : List Value} (hitems : s.heap.HoldsAll items) :
    Grows (newTuple items) s fun v h => h.Holds v := by
  refine .bind (alloc_grows hs hitems) fun r t ht hr => ?_
  exact .pure (.refl ht.sound) (List.forall_mem_singleton.mpr hr)

theorem newDict_grows {entries : List Entry}
    (hentries : ∀ v ∈ (Cell.dict entries).values, s.heap.Holds v) :
    Grows (newDict entries) s fun v h => h.Holds v := by
  refine .bind (alloc_grows hs hentries) fun r t ht hr => ?_
  exact .pure (.refl ht.sound) (List.forall_mem_singleton.mpr hr)

theorem freshId_grows : Grows freshId s fun _ h => h = s.heap :=
  ⟨.refl hs, rfl⟩

end Act

namespace Value

variable {a b v : Value}

theorem asOperand_grows (op : String) (v : Value) :
    Act.Grows (v.asOperand op) s fun _ _ => True := by
  unfold asOperand
  split
  next => exact .pure (.refl hs) trivial
  next => exact Act.raise_grows hs _

theorem arithmetic_grows (op : Operator) (m n : Number) :
    Act.Grows (arithmetic op m n) s fun v h => h.Holds v := by
  have hnumber {x : Except Defect Number} (hx : Terminates x) :
      Act.Grows (do return .number (← Act.ofDefect x)) s fun v h => h.Holds v :=
    .bind (Act.ofDefect_grows hs hx) fun n t ht _ =>
      .pure (.refl ht.sound) (Heap.holds_of_refs rfl)
  cases op with
  | add => exact hnumber (Number.lift_terminates _ _ _ _)
  | subtract => exact hnumber (Number.lift_terminates _ _ _ _)
  | multiply => exact hnumber (Number.lift_terminates _ _ _ _)
  | divide =>
      simp only [arithmetic]
      split
      next => exact Act.raise_grows hs _
      next => exact hnumber (Number.div_terminates _ _)
  | remainder =>
      simp only [arithmetic]
      split
      next => exact Act.raise_grows hs _
      next => exact hnumber (Number.mod_terminates _ _)
  | power =>
      refine .bind (Act.ofDefect_grows hs (Number.pow_terminates m n)) fun p t ht _ => ?_
      cases p <;> exact .pure (.refl ht.sound) (Heap.holds_of_refs rfl)

theorem text_terminates (v : Value) : Terminates (s.heap.text v) := by
  intro htext
  obtain ⟨hd, -⟩ := Heap.text_settles (hs.acyclic_value v) _ htext
  cases hd

theorem applyOperator_grows (op : Operator) (a b : Value) :
    Act.Grows (applyOperator op a b) s fun v h => h.Holds v := by
  unfold applyOperator
  split
  next =>
    refine .bind (Act.heap_grows hs) ?_
    rintro _ t ht rfl
    refine .bind (Act.ofDefect_grows ht.sound (text_terminates ht.sound _)) fun left u hu _ => ?_
    refine .bind (Act.ofDefect_grows hu.sound (text_terminates ht.sound _)) fun right w hw _ => ?_
    exact .pure (.refl hw.sound) (Heap.holds_of_refs rfl)
  next =>
    split
    next q r =>
      refine .bind (Act.heap_grows hs) ?_
      rintro _ t ht rfl
      refine Act.newList_grows ht.sound (List.forall_mem_append.mpr ⟨?_, ?_⟩)
      · exact fun v hv => ht.sound.holds_item hv
      · exact fun v hv => ht.sound.holds_item hv
    next =>
      refine .bind (asOperand_grows hs _ _) fun x t ht _ => ?_
      refine .bind (asOperand_grows ht.sound _ _) fun y u hu _ => ?_
      exact arithmetic_grows hu.sound _ _ _

theorem binary_grows (op : String) (a b : Value) :
    Act.Grows (binary op a b) s fun v h => h.Holds v := by
  unfold binary
  split
  next op _ => exact applyOperator_grows hs op a b
  next => exact Act.raise_grows hs _

theorem ordered_grows (op : Comparator) (a b : Value) :
    Act.Grows (ordered op a b) s fun _ _ => True := by
  unfold ordered
  split
  next => exact .pure (.refl hs) trivial
  next => exact .pure (.refl hs) trivial
  next => exact Act.raise_grows hs _

theorem membership_grows (a b : Value) : Act.Grows (membership a b) s fun _ _ => True := by
  refine .bind (Act.heap_grows hs) ?_
  rintro _ t ht rfl
  split
  iterate 3 next => exact .pure (.refl ht.sound) trivial
  next =>
    split
    next => exact .pure (.refl ht.sound) trivial
    next => exact Act.raise_grows ht.sound _
  next => exact Act.raise_grows ht.sound _

theorem applyComparator_grows (op : Comparator) (a b : Value) :
    Act.Grows (applyComparator op a b) s fun _ _ => True := by
  cases op with
  | equal | unequal | strictEqual | strictUnequal =>
      exact .bind (Act.heap_grows hs) fun heap t ht _ => .pure (.refl ht.sound) trivial
  | member => exact membership_grows hs a b
  | _ => exact ordered_grows hs _ a b

theorem comparison_grows (op : String) (a b : Value) :
    Act.Grows (comparison op a b) s fun v h => h.Holds v := by
  unfold comparison
  split
  next op _ =>
    exact .bind (applyComparator_grows hs op a b) fun holds t ht _ =>
      .pure (.refl ht.sound) (Heap.holds_of_refs rfl)
  next => exact Act.raise_grows hs _

theorem signed_grows (op : String) (v : Value) :
    Act.Grows (signed op v) s fun v h => h.Holds v := by
  unfold signed
  split
  next =>
    exact .bind (Act.heap_grows hs) fun heap t ht _ =>
      .pure (.refl ht.sound) (Heap.holds_of_refs rfl)
  iterate 2
    next =>
      exact .bind (asOperand_grows hs _ _) fun n t ht _ =>
        .pure (.refl ht.sound) (Heap.holds_of_refs rfl)
  next => exact Act.raise_grows hs _

theorem holds_itemAt (r : Ref) (i : Int) : s.heap.Holds (itemAt s.heap r i) := by
  unfold itemAt
  cases hitem : (positionIndex? (s.heap.size r) i).bind (s.heap.item? r) with
  | none => exact Heap.holds_of_refs rfl
  | some v =>
      obtain ⟨j, -, hj⟩ := Option.bind_eq_some_iff.mp hitem
      rw [Heap.item?_eq_getElem?] at hj
      exact hs.holds_item (List.mem_of_getElem? hj)

theorem index_grows (v i : Value) : Act.Grows (v.index i) s fun v h => h.Holds v := by
  refine .bind (Act.heap_grows hs) ?_
  rintro _ t ht rfl
  dsimp only
  split
  next =>
    refine .pure (.refl ht.sound) (Heap.holds_of_refs ?_)
    unfold charAt
    dsimp only
    split <;> rfl
  iterate 2 next => exact .pure (.refl ht.sound) (holds_itemAt ht.sound _ _)
  next =>
    split
    next key _ =>
      refine .pure (.refl ht.sound) ?_
      cases hentry : Entry.find? key (t.heap.entries _) with
      | none => exact Heap.holds_of_refs rfl
      | some w => exact ht.sound.holds_entry hentry
    next => exact Act.raise_grows ht.sound _
  next => exact Act.raise_grows ht.sound _

theorem lambdaPart?_grows (f : Lambda) (name : String) :
    Act.Grows (lambdaPart? f name) s fun found h => h.HoldsAny found := by
  have htexts : s.heap.HoldsAll (f.params.map .text) := by
    intro v hv
    obtain ⟨param, -, rfl⟩ := List.mem_map.mp hv
    exact Heap.holds_of_refs rfl
  unfold lambdaPart?
  split
  next => exact .pure (.refl hs) (Heap.holdsAny_some (Heap.holds_of_refs rfl))
  next =>
    exact .bind (Act.newTuple_grows hs htexts) fun v t ht hv =>
      .pure (.refl ht.sound) (Heap.holdsAny_some hv)
  next => exact .pure (.refl hs) (Heap.holdsAny_some (Heap.holds_of_refs rfl))
  next => exact .pure (.refl hs) (Heap.holdsAny_some (Heap.holds_of_refs rfl))
  next =>
    refine .bind (Act.alloc_grows hs fun v hv => nomatch hv) fun place t ht hplace => ?_
    exact .pure (.refl ht.sound) (Heap.holdsAny_some (List.forall_mem_singleton.mpr hplace))
  next => exact .pure (.refl hs) (Heap.holdsAny_none _)

omit hs in
theorem holds_boundParts {h : Heap} (hv : h.Holds v) :
    h.Holds v.boundParts.1 ∧ h.HoldsAll v.boundParts.2 := by
  fun_induction boundParts v with
  | case1 id function receiver first receivers heq ih =>
    obtain ⟨hfunction, hreceiver⟩ := List.forall_mem_append.mp hv
    rw [heq] at ih
    obtain ⟨hfirst, hreceivers⟩ := ih hfunction
    exact ⟨hfirst, List.forall_mem_append.mpr ⟨hreceivers, List.forall_mem_singleton.mpr hreceiver⟩⟩
  | case2 v => exact ⟨hv, nofun⟩

theorem boundPart?_grows (hv : s.heap.Holds v) (name : String) :
    Act.Grows (v.boundPart? name) s fun found h => h.HoldsAny found := by
  obtain ⟨hfunction, hreceivers⟩ := holds_boundParts hv
  unfold boundPart?
  split
  next => exact .pure (.refl hs) (Heap.holdsAny_some hfunction)
  next =>
    exact .bind (Act.newTuple_grows hs hreceivers) fun v t ht hv =>
      .pure (.refl ht.sound) (Heap.holdsAny_some hv)
  next =>
    refine .bind (Act.newDict_grows hs fun v hv => nomatch hv) fun v t ht hv => ?_
    exact .pure (.refl ht.sound) (Heap.holdsAny_some hv)
  next => exact .pure (.refl hs) (Heap.holdsAny_none _)

theorem part?_grows (hv : s.heap.Holds v) (name : String) :
    Act.Grows (v.part? name) s fun found h => h.HoldsAny found := by
  unfold part?
  split
  next r =>
    refine .bind (Act.heap_grows hs) ?_
    rintro _ t ht rfl
    exact .pure (.refl ht.sound) fun w hw => ht.sound.holds_field hw
  next => exact .pure (.refl hs) (holdsAny_complexPart? _ _ _ _)
  next => exact lambdaPart?_grows hs _ _
  next => exact boundPart?_grows hs hv name
  next =>
    refine .pure (.refl hs) fun w hw => ?_
    obtain ⟨n, -, rfl⟩ := Option.map_eq_some_iff.mp hw
    exact Heap.holds_of_refs rfl

theorem attribute?_grows (hv : s.heap.Holds v) (name : String) :
    Act.Grows (v.attribute? name) s fun found h => h.HoldsAny found := by
  refine .bind (part?_grows hs hv name) fun part t ht hpart => ?_
  cases part with
  | some part => exact .pure (.refl ht.sound) hpart
  | none =>
      dsimp only
      split
      next method _ =>
        refine .bind (Act.freshId_grows ht.sound) fun id u hu _ => ?_
        exact .pure (.refl hu.sound) (Heap.holdsAny_some (hu.holds (ht.holds hv)))
      next => exact .pure (.refl ht.sound) (Heap.holdsAny_none _)

theorem entry?_grows (v : Value) (name : String) :
    Act.Grows (v.entry? name) s fun found h => h.HoldsAny found := by
  unfold entry?
  split
  next r =>
    refine .bind (Act.heap_grows hs) ?_
    rintro _ t ht rfl
    exact .pure (.refl ht.sound) fun w hw => ht.sound.holds_entry hw
  next => exact .pure (.refl hs) (Heap.holdsAny_none _)

end Value

theorem parameterTexts_grows (ts : List Tree) :
    Act.Grows (parameterTexts ts) s fun _ _ => True := by
  induction ts with
  | nil => exact .pure (.refl hs) trivial
  | cons t ts ih =>
      cases t with
      | leaf kind text => exact .bind ih fun texts u hu _ => .pure (.refl hu.sound) trivial
      | node label place cs => exact Act.defect_grows hs nofun

theorem operatorText_grows (t : Tree) : Act.Grows (operatorText t) s fun _ _ => True := by
  unfold operatorText
  split
  next => exact .pure (.refl hs) trivial
  next => exact Act.raise_grows hs _

theorem numberValue_grows (literal : String) :
    Act.Grows (numberValue literal) s fun v h => h.Holds v := by
  unfold numberValue
  split
  next => exact .pure (.refl hs) (Heap.holds_of_refs rfl)
  next => exact Act.defect_grows hs nofun

end

end StringLambda
