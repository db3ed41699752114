import StringLambda.Proofs.Loops.Members

namespace StringLambda

open Run

/-! Loops over lists that change on the way, under their callbacks too. -/

namespace ListLoop

theorem stopOf_finish (loop : ListLoop) (state : loop.State) (m : Machine) :
    stopOf (loop.finish state m) = none := by
  cases loop <;> rfl

/-- A loop over the items up to its first visit, and some others behind them, begins as it does over
the list and goes through the others. -/
theorem from?_take_append (loop : ListLoop) (items others : List Value) {state : loop.State}
    (h : loop.start items = some state) (go : List Value → loop.State → Run loop.State) :
    loop.from? (items.take loop.first ++ others)
        (go ((items.take loop.first ++ others).drop loop.first)) =
      go others state >>= loop.finish := by
  cases loop with
  | reduce start =>
      cases start with
      | some start =>
          cases h
          rfl
      | none =>
          cases items with
          | nil => cases h
          | cons item items =>
              cases h
              rfl
  | _ =>
      cases h
      rfl

section

variable {loop : ListLoop} {depth bound : Nat} {list : Ref} {callback : Value} {m : Machine}

theorem stopOf_call (h : (loop.visits depth list callback m).length < depth) (context : Context) :
    stopOf (call (depth + 1) context (.builtin (.sequence loop.member))
        (.list list :: loop.arguments callback) m) =
      match loop.start (m.heap.items list) with
      | none => some (.fault (.evaluation .emptyReduce none))
      | some _ => (loop.visits depth list callback m).getLast?.bind Visit.stop := by
  rw [call_member]
  cases hstart : loop.start (m.heap.items list) with
  | none =>
      rw [from?_of_none hstart]
      rfl
  | some state =>
      rw [visits_of_some hstart] at h ⊢
      rw [from?_of_some hstart]
      refine .trans ?_ (Items.stopOf_visitFrom h)
      cases hloop : Items.visitFrom list (loop.visit (Items.runUnder depth m.scope) callback) depth
          loop.first state m with
      | ok state n =>
          rw [bind_of_ok hloop]
          exact loop.stopOf_finish state n
      | error stop n =>
          rw [bind_of_error hloop]
          rfl

theorem length_visits_le_bound (hsize : m.heap.size list ≤ bound)
    (hvisits : ∀ v ∈ loop.visits depth list callback m, v.after.heap.size list ≤ bound) :
    (loop.visits depth list callback m).length ≤ bound := by
  cases hstart : loop.start (m.heap.items list) with
  | none =>
      rw [visits_of_none hstart]
      exact Nat.zero_le _
  | some state =>
      rw [visits_of_some hstart] at hvisits ⊢
      exact Nat.le_trans (Items.length_visitsFrom_le_bound hsize hvisits) (Nat.sub_le _ _)

/-- A call that comes to an end does what the member is defined to do on the items visited. -/
theorem call_eq_onItems_visits (h : (loop.visits depth list callback m).length < depth)
    (context : Context) :
    call (depth + 1) context (.builtin (.sequence loop.member))
        (.list list :: loop.arguments callback) m =
      loop.onItems (Items.runUnder depth m.scope) callback ((m.heap.items list).take loop.first ++
        (loop.visits depth list callback m).map Visit.item) m := by
  rw [call_member, onItems_eq]
  cases hstart : loop.start (m.heap.items list) with
  | none =>
      rw [visits_of_none hstart, eq_nil_of_start hstart, List.take_nil, List.map_nil,
        List.append_nil]
      rw [eq_nil_of_start hstart] at hstart
      rw [from?_of_none hstart, from?_of_none hstart]
  | some state =>
      rw [visits_of_some hstart] at h ⊢
      rw [from?_take_append _ _ _ hstart, from?_of_some hstart]
      exact bind_congr_at (Items.visitFrom_eq_forIn h) _

end

/-- A member visits a list by position: the callback is run on what is at a position then, so the
list need only have been made long enough before. While the list stays below some bound, the member
does what it is defined to do on the items visited, and ends if every run of the callback does. -/
theorem visits_by_position (loop : ListLoop) (depth : Nat) (context : Context) (list : Ref)
    (callback : Value) (m : Machine) :
    (∀ (j : Nat) (v : Visit), (loop.visits depth list callback m)[j]? = some v →
      v.before.heap.item? list (loop.first + j) = some v.item) ∧
    (loop.visits depth list callback m).length ≤ m.heap.size list +
      ((loop.visits depth list callback m).map (Visit.growth list)).sum ∧
    ∀ bound < depth, m.heap.size list ≤ bound →
      (∀ v ∈ loop.visits depth list callback m, v.after.heap.size list ≤ bound) →
        call (depth + 1) context (.builtin (.sequence loop.member))
            (.list list :: loop.arguments callback) m =
          loop.onItems (Items.runUnder depth m.scope) callback
            ((m.heap.items list).take loop.first ++
              (loop.visits depth list callback m).map Visit.item) m ∧
        ((∀ v ∈ loop.visits depth list callback m, v.stop ≠ some .unfinished) →
          stopOf (call (depth + 1) context (.builtin (.sequence loop.member))
            (.list list :: loop.arguments callback) m) ≠ some .unfinished) := by
  refine ⟨fun j v hv => ?_, ?_, fun bound hbound hsize hkept => ?_⟩
  · cases hstart : loop.start (m.heap.items list) with
    | none =>
        rw [visits_of_none hstart] at hv
        cases hv
    | some state =>
        rw [visits_of_some hstart] at hv
        exact Items.item?_of_mem_visitsFrom hv
  · cases hstart : loop.start (m.heap.items list) with
    | none =>
        rw [visits_of_none hstart]
        exact Nat.zero_le _
    | some state =>
        rw [visits_of_some hstart]
        exact Items.length_visitsFrom_le ..
  · have hlength := Nat.lt_of_le_of_lt (length_visits_le_bound hsize hkept) hbound
    refine ⟨call_eq_onItems_visits hlength context, fun hfinished => ?_⟩
    rw [stopOf_call hlength]
    cases hstart : loop.start (m.heap.items list) with
    | none => simp
    | some state =>
        intro hstop
        obtain ⟨v, hv, hvstop⟩ := Option.bind_eq_some_iff.mp hstop
        exact hfinished v (List.mem_of_getLast? hv) hvstop

/-- A list of a list of an empty list. -/
def withNested : Machine :=
  { Machine.initial with
    heap := { cells :=
      #[.record [], .list #[.list ⟨2, none⟩], .list #[.list ⟨3, none⟩], .list #[]] } }

/-- `x.map(x.extend)` visits the item that the list has at the call and the one that the first run
puts behind it. -/
theorem visits_by_position_extend :
    withNested.heap.size ⟨1, none⟩ ≤ 2 ∧
    (∀ v ∈ ListLoop.map.visits 3 ⟨1, none⟩ (.method 0 (.list ⟨1, none⟩) .extend) withNested,
      v.after.heap.size ⟨1, none⟩ ≤ 2) ∧
    (∀ v ∈ ListLoop.map.visits 3 ⟨1, none⟩ (.method 0 (.list ⟨1, none⟩) .extend) withNested,
      v.stop ≠ some .unfinished) ∧
    call 4 .plain (.builtin (.sequence .map)) [.list ⟨1, none⟩, .method 0 (.list ⟨1, none⟩) .extend]
        withNested =
      ListLoop.map.onItems (Items.runUnder 3 none) (.method 0 (.list ⟨1, none⟩) .extend)
        [.list ⟨2, none⟩, .list ⟨3, none⟩] withNested ∧
    stopOf (call 4 .plain (.builtin (.sequence .map))
      [.list ⟨1, none⟩, .method 0 (.list ⟨1, none⟩) .extend] withNested) ≠ some .unfinished := by
  have hvisits : ∀ ends ∈ (ListLoop.map.visits 3 ⟨1, none⟩ (.method 0 (.list ⟨1, none⟩) .extend)
      withNested).map fun v => (v.after.heap.size ⟨1, none⟩, v.stop),
      ends.1 ≤ 2 ∧ ends.2 = none := by
    rw [show List.map _ _ = [(2, none), (2, none)] from rfl]
    simp
  have hsizes : ∀ v ∈ ListLoop.map.visits 3 ⟨1, none⟩ (.method 0 (.list ⟨1, none⟩) .extend)
      withNested, v.after.heap.size ⟨1, none⟩ ≤ 2 :=
    fun v hv => (hvisits _ (List.mem_map_of_mem hv)).1
  have hstops : ∀ v ∈ ListLoop.map.visits 3 ⟨1, none⟩ (.method 0 (.list ⟨1, none⟩) .extend)
      withNested, v.stop ≠ some .unfinished := by
    intro v hv
    rw [show v.stop = none from (hvisits _ (List.mem_map_of_mem hv)).2]
    exact nofun
  have hcall := (visits_by_position .map 3 .plain ⟨1, none⟩ (.method 0 (.list ⟨1, none⟩) .extend)
    withNested).2.2 2 (by decide) (by decide) hsizes
  exact ⟨by decide, hsizes, hstops, hcall.1, hcall.2 hstops⟩

/-- The list has one item at the call, and the callback is run twice, with a result each time. -/
theorem more_visits_than_items :
    withNested.heap.size ⟨1, none⟩ = 1 ∧
    (ListLoop.map.visits 3 ⟨1, none⟩ (.method 0 (.list ⟨1, none⟩) .extend) withNested).length = 2 ∧
    ∃ results n, call 4 .plain (.builtin (.sequence .map))
        [.list ⟨1, none⟩, .method 0 (.list ⟨1, none⟩) .extend] withNested = .ok (.list results) n ∧
      n.heap.items results = [.null, .null] :=
  ⟨rfl, rfl, _, _, rfl, rfl⟩

section

variable {list : Ref} {m : Machine} {xs : Array Value}

theorem thrush_append (h : m.heap.cell? list = some (.list xs)) (depth id : Nat) (item : Value)
    (scope : Option Ref) :
    ∃ n, thrush (depth + 1) item (.method id (.list list) .append) [] scope m = .ok .null n ∧
      n.heap.cell? list = some (.list (xs.push item)) := by
  refine ⟨_, rfl, ?_⟩
  have hcells : m.heap.cells[list.index]? = some (.list xs) := h
  simp [Heap.cell?, Heap.modifyList, Array.getElem?_modify, hcells]

theorem visitFrom_append_unfinished (h : m.heap.cell? list = some (.list xs)) (depth id : Nat)
    (scope : Option Ref) {i : Nat} (hi : i < xs.size) (steps : Nat) :
    stopOf (Items.visitFrom list
        (pass (Items.runUnder (depth + 1) scope) (.method id (.list list) .append)) steps i () m) =
      some .unfinished := by
  induction steps generalizing m xs i with
  | zero => rfl
  | succ steps ih =>
      have hitem : m.heap.item? list i = some xs[i] := by
        simp [Heap.item?, h, hi]
      obtain ⟨n, hrun, hn⟩ := thrush_append h depth id xs[i] scope
      have hvisit : pass (Items.runUnder (depth + 1) scope) (.method id (.list list) .append) ()
          xs[i] m = .ok (.yield ()) n := (bind_of_ok hrun _).trans rfl
      rw [Items.visitFrom_some hitem, bind_of_ok hvisit]
      exact ih hn (by rw [Array.size_push]; omega)

/-- `x.forEach(x.append)` never ends, although each run of the callback does. -/
theorem forEach_append_unfinished (h : m.heap.cell? list = some (.list xs)) (hxs : 0 < xs.size)
    (depth id : Nat) (context : Context) :
    stopOf (call depth context (.builtin (.sequence .forEach))
      [.list list, .method id (.list list) .append] m) = some .unfinished := by
  match depth with
  | 0 => rfl
  | 1 => rfl
  | depth + 2 =>
    have hloop := visitFrom_append_unfinished h depth id m.scope hxs (depth + 1)
    have hcall := call_member .forEach (depth + 1) context list (.method id (.list list) .append) m
    refine (congrArg stopOf hcall).trans ?_
    exact stopOf_bind_of_some hloop _

end

end ListLoop

end StringLambda
