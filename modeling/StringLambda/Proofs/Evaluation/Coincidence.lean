import StringLambda.Proofs.Evaluation.Reads
import StringLambda.Proofs.Stops

namespace StringLambda

open Run

/-! Two activations give a tree the same evaluation if they agree on its free names. -/

def Machine.scoped? (m : Machine) (scope : Option Ref) (name : String) : Option Value :=
  scope.bind fun r => Entry.find? (.text name) (m.heap.entries r)

namespace Frame

/-- What a name is bound to: locally, in the scope or among the globals. -/
def find? (frame : Frame) (name : String) (m : Machine) : Option Value :=
  (frame.locals.lookup name).or ((m.scoped? frame.scope name).or (m.global? name))

theorem get_eq (frame : Frame) (name : String) (m : Machine) :
    frame.get name m =
      match frame.find? name m with
      | some v => .ok v m
      | none => .error (.fault (.evaluation (.unresolvedName name) none)) m := by
  have hentries : Entry.find? (.text name) ((frame.scope.map m.heap.entries).getD []) =
      m.scoped? frame.scope name := by
    rw [Machine.scoped?]
    cases frame.scope <;> rfl
  have hscope : ofAct (scopeEntries frame.scope) m =
      .ok ((frame.scope.map m.heap.entries).getD []) m := by
    cases frame.scope <;> rfl
  simp only [get, find?]
  cases frame.locals.lookup name with
  | some v => rfl
  | none =>
      refine (bind_of_ok hscope _).trans ?_
      rw [hentries]
      cases m.scoped? frame.scope name with
      | some v => rfl
      | none =>
          refine (bind_of_ok (show Run.global? name m = .ok (m.global? name) m from rfl) _).trans ?_
          cases m.global? name <;> rfl

theorem exists_get_eq_ok_iff {frame : Frame} {name : String} {m : Machine} :
    (∃ v, frame.get name m = .ok v m) ↔ (frame.locals.lookup name).isSome = true ∨
      (m.scoped? frame.scope name).isSome = true ∨ (m.global? name).isSome = true := by
  rw [get_eq, find?]
  cases frame.locals.lookup name <;> cases m.scoped? frame.scope name <;>
    cases m.global? name <;> simp

theorem get_eq_get_iff {frame other : Frame} {name : String} {m : Machine} :
    frame.get name m = other.get name m ↔ frame.find? name m = other.find? name m := by
  rw [get_eq, get_eq]
  cases frame.find? name m <;> cases other.find? name m <;> simp

end Frame

section

variable {frame other : Frame} {name : String} {m n : Machine}

/-- Activations with one scope that find the same for a name still do when the globals have been
kept, and the entry of the scope as well unless both or none of them bind the name locally. -/
theorem Frame.find?_congr_later (hscope : frame.scope = other.scope)
    (hfind : frame.find? name m = other.find? name m) (hglobals : n.globals = m.globals)
    (hkept : (frame.locals.lookup name).isSome = (other.locals.lookup name).isSome ∨
      n.scoped? frame.scope name = m.scoped? frame.scope name) :
    frame.find? name n = other.find? name n := by
  have hglobal : n.global? name = m.global? name := by
    rw [Machine.global?, Machine.global?, hglobals]
  simp only [find?, ← hscope, hglobal] at hfind ⊢
  cases hf : frame.locals.lookup name <;> cases ho : other.locals.lookup name <;>
    simp_all

/-- Evaluation depends on the activation only through the free names of the tree: two activations
with one scope and one host that find the same for each of them give the tree the same value or
error and the same effects. Where one of them binds a name locally and the other does not, the scope
has to keep its entry for the name until it is read. -/
theorem eval_coincidence {depth : Nat} {t : Tree} (ht : t.ArrowFree)
    (hscope : frame.scope = other.scope) (hhost : frame.host = other.host)
    (hnames : ∀ x ∈ t.freeNames, frame.get x m = other.get x m)
    (hkept : ∀ r ∈ t.reads (call depth) frame m,
      (frame.locals.lookup r.1).isSome = (other.locals.lookup r.1).isSome ∨
        r.2.scoped? frame.scope r.1 = m.scoped? frame.scope r.1) :
    eval (call depth) frame t m = eval (call depth) other t m := by
  refine (ht.coincides hhost).eval m fun r hr => ?_
  obtain ⟨hmem, hglobals⟩ := ht.readsNames.eval m r hr
  rw [Frame.get_eq_get_iff]
  exact Frame.find?_congr_later hscope (Frame.get_eq_get_iff.mp (hnames _ hmem)) hglobals
    (hkept r hr)

end

/-- A scope where `x` is 1. -/
def Machine.withEntry : Machine :=
  { Machine.initial with
    heap := { cells := #[.record [], .dict [⟨.text "x", .text "x", .ofInt 1⟩]] } }

/-- `x + x` where `x` is bound locally, and where it is found in the scope. -/
theorem eval_coincidence_sum :
    let t : Tree := .node .add none [.leaf .ident "x", .leaf .op "+", .leaf .ident "x"]
    let frame : Frame := ⟨[("x", .ofInt 1)], some ⟨1, none⟩, none⟩
    let other : Frame := ⟨[("y", .null)], some ⟨1, none⟩, none⟩
    t.ArrowFree ∧ (∀ x ∈ t.freeNames, frame.get x .withEntry = other.get x .withEntry) ∧
      eval (call 1) frame t .withEntry = eval (call 1) other t .withEntry := by
  intro t frame other
  have ht : t.ArrowFree := by simp [t]
  have hnames : ∀ x ∈ t.freeNames, frame.get x .withEntry = other.get x .withEntry := by
    intro x hx
    obtain rfl : x = "x" := by simpa [t, Tree.freeNames, Tree.freeNamesOf] using hx
    rfl
  refine ⟨ht, hnames, eval_coincidence ht rfl rfl hnames fun r hr => .inr ?_⟩
  have hreads : t.reads (call 1) frame .withEntry =
      [("x", .withEntry), ("x", .withEntry)] := rfl
  rw [hreads] at hr
  obtain rfl : r = ("x", .withEntry) := by simpa using hr
  rfl

/-- `[d.clear(), x]`, where `d` is the scope, finds `x` only if it is bound locally. -/
theorem eval_ne_of_get_eq :
    let t : Tree := .node .array none [.node .chain none [.leaf .ident "d",
      .node .method none [.leaf .name "clear", .node .args none []]], .leaf .ident "x"]
    let frame : Frame := ⟨[("x", .ofInt 1), ("d", .dict ⟨1, none⟩)], some ⟨1, none⟩, none⟩
    let other : Frame := ⟨[("d", .dict ⟨1, none⟩)], some ⟨1, none⟩, none⟩
    t.ArrowFree ∧ (∀ x ∈ t.freeNames, frame.get x .withEntry = other.get x .withEntry) ∧
      eval (call 2) frame t .withEntry ≠ eval (call 2) other t .withEntry := by
  intro t frame other
  refine ⟨by simp [t], ?_, fun heq => ?_⟩
  · intro x hx
    obtain rfl | rfl : x = "d" ∨ x = "x" := by
      simpa [t, Tree.freeNames, Tree.freeNamesOf] using hx
    all_goals rfl
  · have hframe : (stopOf (eval (call 2) frame t .withEntry)).isNone = true := by decide +kernel
    have hother : (stopOf (eval (call 2) other t .withEntry)).isNone = false := by decide +kernel
    rw [heq, hother] at hframe
    cases hframe

end StringLambda
