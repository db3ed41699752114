import Mathlib.Data.List.Forall2
import StringLambda.Proofs.Evaluation.Setting
import StringLambda.Proofs.Wrapping

namespace StringLambda

open Run

/-! Changing lists at their ends. The members that put items at an end of a list, take them off or
turn the list around do to it what they do to a sequence of items, and to nothing else. -/

namespace Heap

variable {h k l : Heap} {list : Ref} {items others : List Value}

/-- A heap follows another one by other items of a list. -/
structure Relisted (h k : Heap) (list : Ref) (items : List Value) : Prop where
  holds : k.cell? list = some (.list items.toArray)
  others : ∀ other, other.index ≠ list.index → k.cell? other = h.cell? other

namespace Relisted

theorem refl (hlist : h.cell? list = some (.list items.toArray)) : h.Relisted h list items :=
  ⟨hlist, fun _ _ => rfl⟩

theorem trans (hk : h.Relisted k list items) (hl : k.Relisted l list others) :
    h.Relisted l list others :=
  ⟨hl.holds, fun other hother => (hl.others other hother).trans (hk.others other hother)⟩

theorem write {c : Cell} (hlist : h.cell? list = some c) (items : List Value) :
    h.Relisted (h.write list (.list items.toArray)) list items := by
  have hlt : list.index < h.cells.size := (Array.getElem?_eq_some_iff.mp hlist).1
  exact ⟨cell?_write_self h list _ hlt, fun _ hother => cell?_write_of_ne h _ hother.symm⟩

theorem modifyList (hlist : h.cell? list = some (.list items.toArray))
    (f : Array Value → Array Value) :
    h.Relisted (h.modifyList list f) list (f items.toArray).toList := by
  refine ⟨?_, fun _ hother => cell?_modifyList_of_ne h f hother.symm⟩
  simp only [cell?] at hlist
  simp [cell?, Heap.modifyList, Array.getElem?_modify, hlist]

end Relisted

theorem items_of_cell? (hlist : h.cell? list = some (.list items.toArray)) :
    h.items list = items := by
  rw [Heap.items, hlist]

theorem size_of_cell? (hlist : h.cell? list = some (.list items.toArray)) :
    h.size list = items.length := by
  rw [size_eq_length, items_of_cell? hlist]

theorem item?_last (hlist : h.cell? list = some (.list items.toArray)) :
    h.item? list (h.size list - 1) = items.getLast? := by
  rw [item?_eq_getElem?, size_eq_length, items_of_cell? hlist, List.getLast?_eq_getElem?]

theorem item?_zero (hlist : h.cell? list = some (.list items.toArray)) :
    h.item? list 0 = items.head? := by
  rw [item?_eq_getElem?, items_of_cell? hlist, List.head?_eq_getElem?]

end Heap

theorem Act.heap_bind {α : Type} (f : Heap → Act α) (a : Arena) :
    (Act.heap >>= f) a = f a.heap a := rfl

/-- A member that changes a list, with its arguments. -/
inductive ListChange where
  | push (items : List Value)
  | pop
  | shift
  | unshift (items : List Value)
  | reverse

namespace ListChange

def member : ListChange → SequenceMember
  | .push _ => .push
  | .pop => .pop
  | .shift => .shift
  | .unshift _ => .unshift
  | .reverse => .reverse

def args : ListChange → List Value
  | .push items | .unshift items => items
  | .pop | .shift | .reverse => []

def after : ListChange → List Value → List Value
  | .push added, items => items ++ added
  | .pop, items => items.dropLast
  | .shift, items => items.tail
  | .unshift added, items => added ++ items
  | .reverse, items => items.reverse

/-- What a change of a list with some items answers: the number of items then, the item that has
been taken off or null if there was none, or the list itself. -/
def result (list : Ref) : ListChange → List Value → Value
  | .push added, items | .unshift added, items => .ofNat (items.length + added.length)
  | .pop, items => items.getLast?.getD .null
  | .shift, items => items.head?.getD .null
  | .reverse, _ => .list list

def act (list : Ref) : ListChange → Act Value
  | .push added => Items.push list added
  | .pop => Items.pop list
  | .shift => Items.shift list
  | .unshift added => Items.unshift list added
  | .reverse => do
    Items.reverse list
    return .list list

variable {list : Ref} {items : List Value} {a : Arena}

theorem act_push (hlist : a.heap.cell? list = some (.list items.toArray)) (added : List Value) :
    ∃ heap, act list (.push added) a =
        .ok (.ofNat (items.length + added.length)) { a with heap } ∧
      a.heap.Relisted heap list (items ++ added) := by
  have hlonger := Heap.Relisted.modifyList hlist (· ++ added)
  rw [show (items.toArray ++ added).toList = items ++ added by simp] at hlonger
  refine ⟨_, ?_, hlonger⟩
  have hsize := Heap.size_of_cell? hlonger.holds
  rw [List.length_append] at hsize
  rw [← hsize]
  rfl

theorem act_unshift (hlist : a.heap.cell? list = some (.list items.toArray)) (added : List Value) :
    ∃ heap, act list (.unshift added) a =
        .ok (.ofNat (items.length + added.length)) { a with heap } ∧
      a.heap.Relisted heap list (added ++ items) := by
  have hlonger := Heap.Relisted.write hlist (added ++ items)
  refine ⟨_, ?_, hlonger⟩
  have hsize := Heap.size_of_cell? hlonger.holds
  rw [List.length_append, Nat.add_comm] at hsize
  rw [← hsize, ← Heap.items_of_cell? hlist]
  rfl

theorem act_reverse (hlist : a.heap.cell? list = some (.list items.toArray)) :
    ∃ heap, act list .reverse a = .ok (.list list) { a with heap } ∧
      a.heap.Relisted heap list items.reverse := by
  refine ⟨_, ?_, Heap.Relisted.write hlist items.reverse⟩
  rw [← Heap.items_of_cell? hlist]
  rfl

theorem act_pop (hlist : a.heap.cell? list = some (.list items.toArray)) :
    ∃ heap, act list .pop a = .ok (items.getLast?.getD .null) { a with heap } ∧
      a.heap.Relisted heap list items.dropLast := by
  simp only [act, Items.pop, Act.heap_bind, Heap.item?_last hlist]
  cases hitem : items.getLast? with
  | none =>
      rw [List.getLast?_eq_none_iff] at hitem
      subst hitem
      exact ⟨a.heap, rfl, .refl hlist⟩
  | some v =>
      have hshorter := Heap.Relisted.modifyList hlist (·.pop)
      rw [Array.toList_pop] at hshorter
      exact ⟨_, rfl, hshorter⟩

theorem act_shift (hlist : a.heap.cell? list = some (.list items.toArray)) :
    ∃ heap, act list .shift a = .ok (items.head?.getD .null) { a with heap } ∧
      a.heap.Relisted heap list items.tail := by
  simp only [act, Items.shift, Act.heap_bind, Heap.item?_zero hlist]
  cases items with
  | nil => exact ⟨a.heap, rfl, .refl hlist⟩
  | cons v items =>
      have hshorter := Heap.Relisted.modifyList hlist fun items => items.extract 1 items.size
      refine ⟨_, rfl, ?_⟩
      simpa using hshorter

theorem act_eq_ok (change : ListChange) (hlist : a.heap.cell? list = some (.list items.toArray)) :
    ∃ heap, change.act list a = .ok (change.result list items) { a with heap } ∧
      a.heap.Relisted heap list (change.after items) := by
  cases change with
  | push added => exact act_push hlist added
  | pop => exact act_pop hlist
  | shift => exact act_shift hlist
  | unshift added => exact act_unshift hlist added
  | reverse => exact act_reverse hlist

theorem call_member (change : ListChange) (depth : Nat) (context : Context) (id : Nat) :
    call (depth + 2) context (.bound id (.builtin (.sequence change.member)) (.list list))
      change.args = Run.ofAct (change.act list) := by
  cases change <;> rfl

end ListChange

/-- The default host finds the members of the library under the names of the changes of a list. -/
structure Machine.ChangesLists (m : Machine) (list : Ref) : Prop where
  registered : ∀ change : ListChange,
    m.registration? (Value.list list).type.lineage change.member.name =
      some ⟨.builtin (.sequence change.member), false⟩
  host : m.host ≠ .keysOnly
  search : m.hosts m.host = none

theorem Machine.ChangesLists.congr {m n : Machine} {list : Ref} (hm : m.ChangesLists list)
    (h : SameSetting n m) : n.ChangesLists list where
  registered change := (Machine.registration?_congr h.members _ _).trans (hm.registered change)
  host := h.host ▸ hm.host
  search := by rw [h.hosts, h.host, hm.search]

theorem Machine.changesLists_initial (index : Nat) :
    Machine.initial.ChangesLists ⟨index, none⟩ where
  registered change := by cases change <;> rfl
  host := nofun
  search := rfl

/-- A change of a list by one of the combinators. -/
structure ListStep where
  keep : Bool
  change : ListChange
  scope : Option Ref

namespace ListStep

def on (depth : Nat) (list : Ref) (step : ListStep) : Run Value :=
  Application.on depth step.scope (.list list)
    ⟨step.keep, .text step.change.member.name, step.change.args⟩

def answer (list : Ref) (step : ListStep) (items : List Value) : Value :=
  if step.keep then .list list else step.change.result list items

def outcomes (depth : Nat) (list : Ref) :
    List ListStep → Machine → List (EStateM.Result Stop Machine Value)
  | [], _ => []
  | step :: steps, m =>
    step.on depth list m :: outcomes depth list steps (endOf (step.on depth list m))

/-- The answers of steps, and the items of a sequence after each of them. -/
def reference (list : Ref) : List ListStep → List Value → List (Value × List Value)
  | [], _ => []
  | step :: steps, items =>
    (step.answer list items, step.change.after items) ::
      reference list steps (step.change.after items)

section

variable {m : Machine} {list : Ref} {items : List Value} (hm : m.ChangesLists list)
  (hlist : m.heap.cell? list = some (.list items.toArray))
include hm hlist

theorem thrush_change (depth : Nat) (change : ListChange) (scope : Option Ref) :
    ∃ n, thrush (depth + 2) (.list list) (.text change.member.name) change.args scope m =
        .ok (change.result list items) n ∧
      m.heap.Relisted n.heap list (change.after items) := by
  obtain ⟨id, n, hn, -, hthrush⟩ :=
    exists_invoke_bound hm.host hm.search (call (depth + 2)) (.list list) (hm.registered change)
      rfl change.args scope
  obtain ⟨heap, hact, hheap⟩ :=
    change.act_eq_ok (a := ⟨n.heap, n.fresh⟩) (by rw [hn.heap]; exact hlist)
  refine ⟨{ n with heap }, hthrush.trans ?_, hn.heap ▸ hheap⟩
  simp only [withScope, change.call_member, Run.ofAct, hact]

/-- One step answers as it is to, changes the list as it is to, and leaves the list and the members
for the next one. -/
theorem on_eq_ok (depth : Nat) (step : ListStep) :
    ∃ n, step.on (depth + 2) list m = .ok (step.answer list items) n ∧ n.ChangesLists list ∧
      m.heap.Relisted n.heap list (step.change.after items) := by
  obtain ⟨keep, change, scope⟩ := step
  obtain ⟨n, hthrush, hheap⟩ := thrush_change hm hlist depth change scope
  have hsetting := thrush_keepsSetting (depth + 2) (.list list) (.text change.member.name)
    change.args scope m
  rw [hthrush] at hsetting
  refine ⟨n, ?_, hm.congr hsetting, hheap⟩
  cases keep with
  | true => exact (bind_of_ok hthrush _).trans rfl
  | false => exact hthrush

end

end ListStep

/-- Steps on a list, by either combinator, have the answers of the reference and leave the list with
its items, the same list all the time. Nothing else in the heap changes. -/
theorem list_changes {m : Machine} {list : Ref} {items : List Value} (hm : m.ChangesLists list)
    (hlist : m.heap.cell? list = some (.list items.toArray)) (depth : Nat)
    (steps : List ListStep) :
    List.Forall₂ (fun outcome expected =>
        ∃ n, outcome = .ok expected.1 n ∧
          n.heap.cell? list = some (.list expected.2.toArray) ∧
          ∀ other, other.index ≠ list.index → n.heap.cell? other = m.heap.cell? other)
      (ListStep.outcomes (depth + 2) list steps m) (ListStep.reference list steps items) := by
  have hrun : ∀ (n : Machine) (items : List Value), n.ChangesLists list →
      m.heap.Relisted n.heap list items →
      List.Forall₂ (fun outcome expected =>
          ∃ k, outcome = .ok expected.1 k ∧ m.heap.Relisted k.heap list expected.2)
        (ListStep.outcomes (depth + 2) list steps n) (ListStep.reference list steps items) := by
    induction steps with
    | nil => exact fun _ _ _ _ => .nil
    | cons step steps ih =>
        intro n items hn hheap
        obtain ⟨k, hstep, hk, hnext⟩ := ListStep.on_eq_ok hn hheap.holds depth step
        have hsince := hheap.trans hnext
        refine .cons ⟨k, hstep, hsince⟩ ?_
        rw [hstep]
        exact ih k _ hk hsince
  refine (hrun m items hm (.refl hlist)).imp ?_
  rintro outcome expected ⟨n, hn, hheap⟩
  exact ⟨n, hn, hheap.holds, hheap.others⟩

/-- A list of 1 that is put into itself, emptied beyond its last item, filled from the start and
turned around. -/
theorem list_changes_itself :
    let m : Machine :=
      { Machine.initial with heap := { cells := #[.record [], .list #[.ofInt 1], .dict []] } }
    let steps : List ListStep := [⟨true, .push [.list ⟨1, none⟩, .dict ⟨2, none⟩], none⟩,
      ⟨false, .pop, none⟩, ⟨false, .shift, some ⟨2, none⟩⟩, ⟨false, .pop, none⟩, ⟨false, .shift, none⟩,
      ⟨false, .unshift [.ofInt 2, .ofInt 3], none⟩, ⟨false, .reverse, none⟩]
    let expected : List (Value × List Value) := [
      (.list ⟨1, none⟩, [.ofInt 1, .list ⟨1, none⟩, .dict ⟨2, none⟩]),
      (.dict ⟨2, none⟩, [.ofInt 1, .list ⟨1, none⟩]), (.ofInt 1, [.list ⟨1, none⟩]),
      (.list ⟨1, none⟩, []), (.null, []), (.ofInt 2, [.ofInt 2, .ofInt 3]),
      (.list ⟨1, none⟩, [.ofInt 3, .ofInt 2])]
    m.ChangesLists ⟨1, none⟩ ∧ m.heap.cell? ⟨1, none⟩ = some (.list #[.ofInt 1]) ∧
      List.Forall₂ (fun outcome expected =>
          ∃ n, outcome = .ok expected.1 n ∧
            n.heap.cell? ⟨1, none⟩ = some (.list expected.2.toArray) ∧
            ∀ other, other.index ≠ 1 → n.heap.cell? other = m.heap.cell? other)
        (ListStep.outcomes 2 ⟨1, none⟩ steps m) expected := by
  intro m steps expected
  have hm : m.ChangesLists ⟨1, none⟩ :=
    (Machine.changesLists_initial 1).congr ⟨rfl, rfl, rfl, rfl, rfl⟩
  have hlist : m.heap.cell? ⟨1, none⟩ = some (.list [Value.ofInt 1].toArray) := rfl
  have hexpected : ListStep.reference ⟨1, none⟩ steps [.ofInt 1] = expected := rfl
  rw [← hexpected]
  exact ⟨hm, hlist, list_changes hm hlist 0 steps⟩

end StringLambda
