import StringLambda.Proofs.Evaluation.Setting
import StringLambda.Proofs.Loops

namespace StringLambda

open Run

/-! The members of lists that run a callback. Each is a loop that does on the items that it visits
what its definition over a fixed list of items says. -/

/-- The values that do not count as true. -/
inductive Heap.Falsy (h : Heap) : Value → Prop
  | null : Falsy h .null
  | no : Falsy h (.bool false)
  | zero : Falsy h (.ofInt 0)
  | floatZero {x : Float} : x == 0 → Falsy h (.ofFloat x)
  | nan {x : Float} : x.isNaN → Falsy h (.ofFloat x)
  | complexZero {re im : Float} : re == 0 → im == 0 → Falsy h (.complex re im)
  | emptyText : Falsy h (.text "")
  | emptyList {r : Ref} : h.items r = [] → Falsy h (.list r)
  | emptyTuple {r : Ref} : h.items r = [] → Falsy h (.tuple r)
  | emptyDict {r : Ref} : h.entries r = [] → Falsy h (.dict r)

theorem Heap.truthy_eq_false_iff {h : Heap} {v : Value} : h.truthy v = false ↔ h.Falsy v := by
  refine ⟨fun hv => ?_, fun hv => ?_⟩
  · cases v with
    | null => exact .null
    | bool b =>
        cases hv
        exact .no
    | number a =>
        cases a with
        | int i =>
            obtain rfl : i = 0 := by simpa [Heap.truthy] using hv
            exact .zero
        | float x =>
            have hx : x.isNaN = false → x == 0 := by simpa [Heap.truthy] using hv
            cases hnan : x.isNaN with
            | true => exact .nan hnan
            | false => exact .floatZero (hx hnan)
    | complex re im =>
        have hparts : re == 0 ∧ im == 0 := by simpa [Heap.truthy] using hv
        exact .complexZero hparts.1 hparts.2
    | text s =>
        obtain rfl : s = "" := by simpa [Heap.truthy] using hv
        exact .emptyText
    | list r =>
        have hsize : h.size r = 0 := by simpa [Heap.truthy] using hv
        exact .emptyList (List.length_eq_zero_iff.mp (h.size_eq_length r ▸ hsize))
    | tuple r =>
        have hsize : h.size r = 0 := by simpa [Heap.truthy] using hv
        exact .emptyTuple (List.length_eq_zero_iff.mp (h.size_eq_length r ▸ hsize))
    | dict r => exact .emptyDict (by simpa [Heap.truthy] using hv)
    | _ => cases hv
  · cases hv with
    | emptyList hr => simp [Heap.truthy, Heap.size_eq_length, hr]
    | emptyTuple hr => simp [Heap.truthy, Heap.size_eq_length, hr]
    | _ => simp_all [Heap.truthy, Value.ofInt, Value.ofFloat]

instance (h : Heap) : DecidablePred h.Falsy :=
  fun _ => decidable_of_iff _ h.truthy_eq_false_iff

/-- The members that run a callback on one item after another. -/
inductive ListLoop where
  | map
  | filter
  /-- Combines the items, from a start on if one is given. -/
  | reduce (start : Option Value)
  | forEach
  | any
  | every
  | find

namespace ListLoop

def member : ListLoop → SequenceMember
  | .map => .map
  | .filter => .filter
  | .reduce _ => .reduce
  | .forEach => .forEach
  | .any => .some
  | .every => .every
  | .find => .find

def arguments (callback : Value) : ListLoop → List Value
  | .reduce (some start) => [callback, start]
  | _ => [callback]

/-- Runs a callback on an item and tells whether what it gives counts as true. -/
def holds (run : Items.Visitor) (callback item : Value) : Run Bool := do
  let v ← run callback item []
  return ¬ (← Run.heap).Falsy v

def onItems (run : Items.Visitor) (callback : Value) : ListLoop → List Value → Run Value
  | .map, items => do Run.newList (← items.mapM fun item => run callback item [])
  | .filter, items => do Run.newList (← items.filterM (holds run callback))
  | .reduce (some start), items =>
    items.foldlM (fun soFar item => run callback soFar [item]) start
  | .reduce none, [] => Run.raise .emptyReduce
  | .reduce none, start :: items =>
    items.foldlM (fun soFar item => run callback soFar [item]) start
  | .forEach, items => do
    items.forM fun item => discard (run callback item [])
    return .null
  | .any, items => return .bool (← items.anyM (holds run callback))
  | .every, items => return .bool (← items.allM (holds run callback))
  | .find, items => return (← items.findM? (holds run callback)).getD .null

def State : ListLoop → Type
  | .map | .filter => List Value
  | .reduce _ => Value
  | .forEach => Unit
  | .any | .every | .find => Option Value

def first : ListLoop → Nat
  | .reduce none => 1
  | _ => 0

def start : (loop : ListLoop) → List Value → Option loop.State
  | .map, _ | .filter, _ => some []
  | .reduce none, items => items.head?
  | .reduce (some start), _ => some start
  | .forEach, _ => some ()
  | .any, _ | .every, _ | .find, _ => some none

section

variable (run : Items.Visitor) (callback : Value)

def collect (done : List Value) (item : Value) : Run (ForInStep (List Value)) := do
  return .yield ((← run callback item []) :: done)

def select (kept : List Value) (item : Value) : Run (ForInStep (List Value)) := do
  return .yield (if ← holds run callback item then item :: kept else kept)

def combine (soFar item : Value) : Run (ForInStep Value) := do
  return .yield (← run callback soFar [item])

def pass (_ : Unit) (item : Value) : Run (ForInStep Unit) := do
  let _ ← run callback item []
  return .yield ()

def seek (answer : Bool) (_ : Option Value) (item : Value) : Run (ForInStep (Option Value)) := do
  if (← holds run callback item) == answer then return .done (some item)
  else return .yield none

def visit : (loop : ListLoop) → loop.State → Value → Run (ForInStep loop.State)
  | .map => collect run callback
  | .filter => select run callback
  | .reduce _ => combine run callback
  | .forEach => pass run callback
  | .any | .find => seek run callback true
  | .every => seek run callback false

end

def finish : (loop : ListLoop) → loop.State → Run Value
  | .map, done | .filter, done => Run.newList (List.reverse done)
  | .reduce _, v => return v
  | .forEach, _ => return .null
  | .any, found => return .bool (Option.isSome found)
  | .every, found => return .bool (Option.isNone found)
  | .find, found => return (Option.getD found .null)

/-- A loop that begins in the state that it takes from some items. Only `reduce` may find none. -/
def from? (loop : ListLoop) (items : List Value) (go : loop.State → Run loop.State) : Run Value :=
  match loop.start items with
  | none => Run.raise .emptyReduce
  | some state => go state >>= loop.finish

section

variable {loop : ListLoop} {items : List Value}

theorem from?_of_some {state : loop.State} (h : loop.start items = some state)
    (go : loop.State → Run loop.State) : loop.from? items go = go state >>= loop.finish := by
  rw [from?, h]

theorem from?_of_none (h : loop.start items = none) (go : loop.State → Run loop.State) :
    loop.from? items go = Run.raise .emptyReduce := by
  rw [from?, h]

theorem eq_nil_of_start (h : loop.start items = none) : items = [] := by
  cases loop with
  | reduce start =>
      cases start with
      | some start => cases h
      | none => exact List.head?_eq_none_iff.mp h
  | _ => cases h

end

def through (run : Items.Visitor) (callback : Value) (loop : ListLoop) (items : List Value)
    (state : loop.State) : Run loop.State :=
  forIn items state fun item state => loop.visit run callback state item

section

variable (run : Items.Visitor) (callback : Value)

theorem accepts_eq_holds : Items.accepts run callback = holds run callback := by
  refine funext fun item => bind_congr fun v => bind_congr fun h => congrArg pure ?_
  by_cases hv : h.Falsy v
  · rw [decide_eq_false (not_not_intro hv), Heap.truthy_eq_false_iff.mpr hv]
  · rw [decide_eq_true hv]
    exact eq_true_of_ne_false (mt Heap.truthy_eq_false_iff.mp hv)

theorem applyList_member (loop : ListLoop) (steps : Nat) (receiver : Value) (list : Ref)
    (m : Machine) :
    loop.member.applyList run steps receiver list (loop.arguments callback) m =
      loop.from? (m.heap.items list)
        (Items.visitFrom list (loop.visit run callback) steps loop.first) m := by
  have hheap : Run.heap m = .ok m.heap m := rfl
  have hfirst : m.heap.item? list 0 = (m.heap.items list).head? := by
    rw [Heap.item?_eq_getElem?, List.head?_eq_getElem?]
  cases loop with
  | reduce start =>
      refine (bind_of_ok hheap _).trans ?_
      cases start with
      | some start => exact congrFun (bind_pure _).symm m
      | none =>
          simp only [arguments, from?, ListLoop.start, hfirst, List.getElem?_cons_succ,
            List.getElem?_nil]
          cases (m.heap.items list).head? with
          | none => rfl
          | some start => exact congrFun (bind_pure _).symm m
  | filter =>
      simp only [member, SequenceMember.applyList, Items.filter, accepts_eq_holds]
      rfl
  | any | every | find =>
      simp only [member, SequenceMember.applyList, Items.firstItem?, accepts_eq_holds]
      rfl
  | _ => rfl

theorem forIn_collect (items done : List Value) :
    forIn items done (fun item done => collect run callback done item) =
      (do return (← items.mapM fun item => run callback item []).reverse ++ done) := by
  induction items generalizing done with
  | nil => rfl
  | cons item items ih =>
      simp only [List.forIn_cons, collect, List.mapM_cons, bind_assoc, pure_bind,
        List.reverse_cons, List.append_assoc, List.singleton_append]
      exact bind_congr fun v => ih (v :: done)

theorem forIn_select (items kept : List Value) :
    forIn items kept (fun item kept => select run callback kept item) =
      items.filterAuxM (holds run callback) kept := by
  induction items generalizing kept with
  | nil => rfl
  | cons item items ih =>
      simp only [List.forIn_cons, select, List.filterAuxM, bind_assoc, pure_bind]
      refine bind_congr fun accepted => ?_
      cases accepted with
      | true => exact ih (item :: kept)
      | false => exact ih kept

theorem forIn_combine (items : List Value) (start : Value) :
    forIn items start (fun item soFar => combine run callback soFar item) =
      items.foldlM (fun soFar item => run callback soFar [item]) start := by
  induction items generalizing start with
  | nil => rfl
  | cons item items ih =>
      simp only [List.forIn_cons, combine, List.foldlM_cons, bind_assoc, pure_bind]
      exact bind_congr ih

theorem forIn_pass (items : List Value) :
    forIn items () (fun item u => pass run callback u item) =
      items.forM fun item => discard (run callback item []) := by
  induction items with
  | nil => rfl
  | cons item items ih =>
      have hforM : (item :: items).forM (fun item => discard (run callback item [])) =
          discard (run callback item []) >>= fun _ =>
            items.forM fun item => discard (run callback item []) := rfl
      rw [hforM, ← ih, List.forIn_cons]
      simp only [pass, discard, Functor.discard, map_const, Function.comp_apply, bind_map_left,
        bind_assoc, pure_bind]

theorem forIn_seek (items : List Value) :
    forIn items none (fun item found => seek run callback true found item) =
      items.findM? (holds run callback) := by
  induction items with
  | nil => rfl
  | cons item items ih =>
      simp only [List.forIn_cons, seek, List.findM?, bind_assoc]
      refine bind_congr fun accepted => ?_
      cases accepted with
      | true => rfl
      | false => exact ih

theorem isSome_forIn_seek (items : List Value) :
    Option.isSome <$> forIn items none (fun item found => seek run callback true found item) =
      items.anyM (holds run callback) := by
  induction items with
  | nil => rfl
  | cons item items ih =>
      simp only [List.forIn_cons, seek, List.anyM, bind_assoc, map_bind]
      refine bind_congr fun accepted => ?_
      cases accepted with
      | true => rfl
      | false => exact ih

theorem isNone_forIn_seek (items : List Value) :
    Option.isNone <$> forIn items none (fun item found => seek run callback false found item) =
      items.allM (holds run callback) := by
  induction items with
  | nil => rfl
  | cons item items ih =>
      simp only [List.forIn_cons, seek, List.allM, bind_assoc, map_bind]
      refine bind_congr fun accepted => ?_
      cases accepted with
      | true => exact ih
      | false => rfl

theorem onItems_eq (loop : ListLoop) (items : List Value) :
    loop.onItems run callback items =
      loop.from? items (loop.through run callback (items.drop loop.first)) := by
  cases loop with
  | map =>
      show _ = (forIn items [] fun item done => collect run callback done item) >>= fun done =>
        Run.newList done.reverse
      simp only [onItems, forIn_collect, bind_assoc, pure_bind, List.append_nil,
        List.reverse_reverse]
  | filter =>
      show _ = (forIn items [] fun item kept => select run callback kept item) >>= fun kept =>
        Run.newList kept.reverse
      simp only [onItems, forIn_select, List.filterM, bind_assoc, pure_bind]
  | reduce start =>
      have hfold : ∀ items start, (forIn items start fun item soFar =>
          combine run callback soFar item) >>= Pure.pure = _ :=
        fun items start => (bind_pure _).trans (forIn_combine run callback items start)
      cases start with
      | some start => exact (hfold items start).symm
      | none =>
          cases items with
          | nil => rfl
          | cons start items => exact (hfold items start).symm
  | forEach => simp only [onItems, ← forIn_pass] ; rfl
  | any => simp only [onItems, ← isSome_forIn_seek, bind_map_left] ; rfl
  | every => simp only [onItems, ← isNone_forIn_seek, bind_map_left] ; rfl
  | find => simp only [onItems, ← forIn_seek] ; rfl

end

end ListLoop

def Items.runUnder (depth : Nat) (scope : Option Ref) : Items.Visitor := fun callback item args =>
  thrush depth item callback args scope

/-- Runs that do the same where a scope is in place, and leave it there. -/
def underScope (scope : Option Ref) : Stepwise where
  rel act other := ∀ m, m.scope = scope → act m = other m ∧ (endOf (act m)).scope = scope
  tame h m hm := ⟨rfl, (h.toPlain.keeps m).scope.trans hm⟩
  bind {α β act other f g} h hf := by
    intro m hm
    obtain ⟨heq, hscope⟩ := h m hm
    rw [bind_congr_at heq f]
    cases hother : other m with
    | ok a n =>
        rw [heq, hother] at hscope
        rw [bind_of_ok hother, bind_of_ok hother]
        exact hf a n hscope
    | error stop n =>
        rw [heq, hother] at hscope
        rw [bind_of_error hother, bind_of_error hother]
        exact ⟨rfl, hscope⟩

theorem runCallback_underScope (depth : Nat) (scope : Option Ref) (callback item : Value)
    (args : List Value) :
    (underScope scope).rel (Items.runCallback (call depth) callback item args)
      (Items.runUnder depth scope callback item args) := by
  rintro m rfl
  exact ⟨rfl, (thrush_keepsSetting depth item callback args m.scope m).scope⟩

namespace ListLoop

/-- A call of a member runs its loop, with every callback under the scope of the call. -/
theorem call_member (loop : ListLoop) (depth : Nat) (context : Context) (list : Ref)
    (callback : Value) (m : Machine) :
    call (depth + 1) context (.builtin (.sequence loop.member))
        (.list list :: loop.arguments callback) m =
      loop.from? (m.heap.items list)
        (Items.visitFrom list (loop.visit (Items.runUnder depth m.scope) callback) depth loop.first)
        m := by
  have hcall : call (depth + 1) context (.builtin (.sequence loop.member))
      (.list list :: loop.arguments callback) = loop.member.applyList
        (Items.runCallback (call depth)) depth (.list list) list (loop.arguments callback) := by
    cases loop with
    | reduce start => cases start <;> rfl
    | _ => rfl
  have hrun := SequenceMember.applyList_rel (runCallback_underScope depth m.scope) depth loop.member
    (.list list) list (loop.arguments callback)
  rw [hcall, (hrun m rfl).1, applyList_member]

def visits (loop : ListLoop) (depth : Nat) (list : Ref) (callback : Value) (m : Machine) :
    List Visit :=
  match loop.start (m.heap.items list) with
  | none => []
  | some state =>
    Items.visitsFrom list (loop.visit (Items.runUnder depth m.scope) callback) depth loop.first
      state m

section

variable {loop : ListLoop} {depth : Nat} {list : Ref} {callback : Value} {m : Machine}

theorem visits_of_some {state : loop.State} (h : loop.start (m.heap.items list) = some state) :
    loop.visits depth list callback m =
      Items.visitsFrom list (loop.visit (Items.runUnder depth m.scope) callback) depth loop.first
        state m := by
  rw [visits, h]

theorem visits_of_none (h : loop.start (m.heap.items list) = none) :
    loop.visits depth list callback m = [] := by
  rw [visits, h]

end

/-- On a list that no run of the callback changes, a member does what it is defined to do on the
items of the list, with the callback under the scope of the call, and runs the callback on the items
in their order, on each at most once. -/
theorem call_eq_onItems (loop : ListLoop) (depth : Nat) (context : Context) (list : Ref)
    (callback : Value) (m : Machine)
    (hkept : ∀ v ∈ loop.visits depth list callback m,
      v.after.heap.items list = v.before.heap.items list)
    (hlength : m.heap.size list < depth) :
    call (depth + 1) context (.builtin (.sequence loop.member))
        (.list list :: loop.arguments callback) m =
      loop.onItems (Items.runUnder depth m.scope) callback (m.heap.items list) m ∧
    (loop.visits depth list callback m).map Visit.item <+:
      (m.heap.items list).drop loop.first := by
  rw [call_member, onItems_eq]
  cases hstart : loop.start (m.heap.items list) with
  | none =>
      rw [from?_of_none hstart, from?_of_none hstart, visits_of_none hstart]
      exact ⟨rfl, List.nil_prefix⟩
  | some state =>
      rw [visits_of_some hstart] at hkept
      have hrest : ((m.heap.items list).drop loop.first).length < depth := by
        rw [List.length_drop, ← Heap.size_eq_length]
        omega
      obtain ⟨hfront, hforIn⟩ := Items.forIn_visitsFrom hkept rfl rfl hrest
      have hvisits := Nat.lt_of_le_of_lt hfront.length_le hrest
      rw [List.length_map] at hvisits
      rw [from?_of_some hstart, from?_of_some hstart, visits_of_some hstart]
      exact ⟨bind_congr_at ((Items.visitFrom_eq_forIn hvisits).trans hforIn) _, hfront⟩

/-- A list of 1 and 2, and an empty one. -/
def withNumbers : Machine :=
  { Machine.initial with
    heap := { cells := #[.record [], .list #[.ofInt 1, .ofInt 2], .list #[]] } }

/-- `xs.forEach(ys.append)` puts the items of the one list into the other. -/
theorem call_eq_onItems_append :
    (∀ v ∈ ListLoop.forEach.visits 3 ⟨1, none⟩ (.method 0 (.list ⟨2, none⟩) .append) withNumbers,
      v.after.heap.items ⟨1, none⟩ = v.before.heap.items ⟨1, none⟩) ∧
    withNumbers.heap.size ⟨1, none⟩ < 3 ∧
    call 4 .plain (.builtin (.sequence .forEach))
        [.list ⟨1, none⟩, .method 0 (.list ⟨2, none⟩) .append] withNumbers =
      ListLoop.forEach.onItems (Items.runUnder 3 none) (.method 0 (.list ⟨2, none⟩) .append)
        [.ofInt 1, .ofInt 2] withNumbers := by
  have hkept : ∀ lists ∈ (ListLoop.forEach.visits 3 ⟨1, none⟩ (.method 0 (.list ⟨2, none⟩) .append)
      withNumbers).map fun v => (v.after.heap.items ⟨1, none⟩, v.before.heap.items ⟨1, none⟩),
      lists.1 = lists.2 := by
    rw [show List.map _ _ = [([Value.ofInt 1, .ofInt 2], [.ofInt 1, .ofInt 2]),
      ([.ofInt 1, .ofInt 2], [.ofInt 1, .ofInt 2])] from rfl]
    simp
  have hkept : ∀ v ∈ ListLoop.forEach.visits 3 ⟨1, none⟩ (.method 0 (.list ⟨2, none⟩) .append)
      withNumbers, v.after.heap.items ⟨1, none⟩ = v.before.heap.items ⟨1, none⟩ :=
    fun v hv => hkept _ (List.mem_map_of_mem hv)
  exact ⟨hkept, by decide, (call_eq_onItems .forEach 3 .plain ⟨1, none⟩ _ _ hkept (by decide)).1⟩

end ListLoop

end StringLambda
