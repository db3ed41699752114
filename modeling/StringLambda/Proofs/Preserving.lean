import StringLambda.Call
import StringLambda.Proofs.Evaluation.Plain
import StringLambda.Proofs.Preserving.Bounds
import StringLambda.Proofs.Preserving.Operations

namespace StringLambda

open Run

/-! Evaluation without calls. It comes to an end, and all that it does to the state is to make new
containers. -/

/-- A state follows another one by new containers and functions alone. -/
structure Machine.Grown (m n : Machine) : Prop extends m.heap.Grown n.heap where
  rest : n = { m with heap := n.heap, fresh := n.fresh }

namespace Machine.Grown

variable {m n k : Machine}

theorem refl (hsound : m.heap.Sound) : m.Grown m := ⟨.refl hsound, rfl⟩

theorem trans (h : m.Grown n) (h' : n.Grown k) : m.Grown k := by
  refine ⟨h.toGrown.trans h'.toGrown, ?_⟩
  rw [h'.rest, h.rest]

end Machine.Grown

instance : IsTrans Machine Machine.Grown := ⟨fun _ _ _ h h' => h.trans h'⟩

namespace Run

variable {α : Type} {m : Machine}

/-- A run that comes to an end and only makes new containers, with a result as told. -/
abbrev Grows (act : Run α) (m : Machine) (post : α → Heap → Prop) : Prop :=
  Ends Machine.Grown act m fun a n => post a n.heap

theorem grows_lift {act : Act α} {post : α → Heap → Prop}
    (h : act.Grows ⟨m.heap, m.fresh⟩ post) : Grows (liftM act) m post := by
  show Ends Machine.Grown (ofAct act) m _
  unfold Act.Grows Ends at h
  unfold Ends ofAct
  cases hact : act ⟨m.heap, m.fresh⟩ with
  | ok a s =>
      rw [hact] at h
      exact ⟨⟨h.1, rfl⟩, h.2⟩
  | error stop s =>
      rw [hact] at h
      exact ⟨⟨h.1, rfl⟩, h.2⟩

theorem grows_located {act : Run α} {post : α → Heap → Prop} (h : Grows act m post)
    (place : Option Position) : Grows (located place act) m post := by
  unfold Grows Ends at h ⊢
  unfold located mapStop
  cases hact : act m with
  | ok a n =>
      rw [hact] at h
      exact h
  | error stop n =>
      rw [hact] at h
      exact ⟨h.1, (stop.isEndless_located place).trans h.2⟩

section

variable (hm : m.heap.Sound)
include hm

theorem raise_grows (issue : EvalIssue) {post : α → Machine → Prop} :
    Ends Machine.Grown (raise issue) m post := ⟨.refl hm, rfl⟩

theorem defect_grows {d : Defect} (hd : d ≠ .endlessNesting) {post : α → Machine → Prop} :
    Ends Machine.Grown (defect d) m post := by
  refine ⟨.refl hm, ?_⟩
  cases d <;> first | rfl | exact absurd rfl hd

theorem reading_grows (part : Machine → α) :
    Ends Machine.Grown (do return part (← get)) m fun a n => n = m ∧ a = part m :=
  ⟨.refl hm, rfl, rfl⟩

end

end Run

/-- An activation with the standard host and the members of the language, where all that the
activation and the globals mention is in a sound heap. -/
structure Frame.Standard (frame : Frame) (m : Machine) : Prop where
  members : m.members = Machine.memberTable
  host : frame.host.getD m.host = .standard
  search : m.hosts .standard = none
  locals : ∀ p ∈ frame.locals, m.heap.Holds p.2
  scope : ∀ r, frame.scope = some r → r.index < m.heap.cells.size
  globals : ∀ p ∈ m.globals, m.heap.Holds p.2
  sound : m.heap.Sound

theorem Value.exists_of_mem_refsOfLocals {locals : List (String × Value)} {r : Ref}
    (hr : r ∈ Value.refsOfLocals locals) : ∃ p ∈ locals, r ∈ p.2.refs := by
  induction locals with
  | nil => cases hr
  | cons p locals ih =>
      obtain hr | hr := List.mem_append.mp hr
      · exact ⟨p, List.mem_cons_self, hr⟩
      · obtain ⟨q, hq, hr⟩ := ih hr
        exact ⟨q, List.mem_cons_of_mem _ hq, hr⟩

namespace Frame.Standard

variable {frame : Frame} {m n : Machine}

theorem grown (h : frame.Standard m) (hn : m.Grown n) : frame.Standard n where
  members := by rw [hn.rest, h.members]
  host := by
    have hhost : n.host = m.host := by rw [hn.rest]
    rw [hhost, h.host]
  search := by rw [hn.rest, h.search]
  locals p hp := hn.holds (h.locals p hp)
  scope r hr := hn.lt_size (h.scope r hr)
  globals := by
    have hglobals : n.globals = m.globals := by rw [hn.rest]
    rw [hglobals]
    exact fun p hp => hn.holds (h.globals p hp)
  sound := hn.sound

variable (h : frame.Standard m)
include h

theorem get_grows (name : String) : Run.Grows (frame.get name) m fun v h => h.Holds v := by
  unfold Frame.get
  cases hlocal : frame.locals.lookup name with
  | some v => exact .pure (.refl h.sound) (h.locals _ (Heap.mem_of_lookup hlocal))
  | none =>
      dsimp only
      have hentries : Run.Grows (liftM (Frame.scopeEntries frame.scope)) m fun es h =>
          ∀ key v, Entry.find? key es = some v → h.Holds v := by
        refine grows_lift ?_
        unfold Frame.scopeEntries
        cases frame.scope with
        | none => exact .pure (.refl h.sound) fun key v hv => nomatch hv
        | some r =>
            refine .bind (Act.heap_grows (s := ⟨m.heap, m.fresh⟩) h.sound) ?_
            rintro _ t ht rfl
            exact .pure (.refl ht.sound) fun key v hv => ht.sound.holds_entry hv
      refine .bind hentries fun es n hn hes => ?_
      cases hentry : Entry.find? (.text name) es with
      | some v => exact .pure (.refl hn.sound) (hes _ v hentry)
      | none =>
          refine .bind (reading_grows hn.sound fun n => n.global? name) ?_
          rintro _ n - ⟨rfl, rfl⟩
          cases hglobal : n.global? name with
          | some v =>
              have hv := (h.grown hn).globals _ (Heap.mem_of_lookup hglobal)
              exact .pure (.refl hn.sound) hv
          | none => exact raise_grows hn.sound _

theorem evalLeaf_grows (kind : LeafKind) (text : String) :
    Run.Grows (evalLeaf frame kind text) m fun v h => h.Holds v := by
  have hplain {v : Value} (hv : v.refs = []) :
      Run.Grows (pure v) m fun v h => h.Holds v :=
    .pure (.refl h.sound) (Heap.holds_of_refs hv)
  cases kind with
  | number => exact grows_lift (numberValue_grows (s := ⟨m.heap, m.fresh⟩) h.sound text)
  | string | true | false | null | undefined => exact hplain rfl
  | ident => exact h.get_grows text
  | name | op | other _ => exact raise_grows h.sound _

theorem makeClosure_grows (params body : Tree) :
    Run.Grows (makeClosure frame params body) m fun v h => h.Holds v := by
  have hnames := parameterTexts_grows (s := ⟨m.heap, m.fresh⟩) h.sound params.children
  refine .bind (grows_lift hnames) fun names n hn _ => ?_
  have hfresh := Act.freshId_grows (s := ⟨n.heap, n.fresh⟩) hn.sound
  refine .bind (grows_lift hfresh) fun id k hk _ => ?_
  refine .pure (.refl hk.sound) fun r hr => ?_
  have hframe := h.grown (hn.trans hk)
  obtain hr | hr := List.mem_append.mp hr
  · obtain ⟨p, hp, hr⟩ := Value.exists_of_mem_refsOfLocals hr
    exact hframe.locals p hp r hr
  · exact hframe.scope r (Option.mem_toList.mp hr)

end Frame.Standard

section

theorem exists_builtin_of_mem_memberTable {e : (ValueType × String) × Registration}
    (he : e ∈ Machine.memberTable) :
    ∃ f, e.2.function = .builtin f ∧
      (e.2.isProperty = true → f = .text .length ∨ f = .sequence .length) := by
  simp only [Machine.memberTable, List.mem_append, List.mem_map, List.mem_singleton] at he
  obtain ((((⟨f, -, rfl⟩ | ⟨f, -, rfl⟩) | ⟨f, -, rfl⟩) | rfl) | ⟨f, -, rfl⟩) | ⟨f, -, rfl⟩ := he
  · refine ⟨_, rfl, fun hname => ?_⟩
    cases f <;> first | exact .inl rfl | exact absurd hname (by decide)
  · refine ⟨_, rfl, fun hname => ?_⟩
    cases f <;> first | exact .inr rfl | exact absurd hname (by decide)
  · refine ⟨_, rfl, fun hname => ?_⟩
    cases f <;> first | exact .inr rfl | exact absurd hname (by decide)
  · exact ⟨_, rfl, fun _ => .inr rfl⟩
  · refine ⟨_, rfl, fun hname => ?_⟩
    cases f <;> exact absurd hname (by decide)
  · refine ⟨_, rfl, fun hname => ?_⟩
    cases f <;> exact absurd hname (by decide)

theorem Machine.exists_mem_of_registration? {m : Machine} {lineage : List ValueType}
    {name : String} {reg : Registration} (h : m.registration? lineage name = some reg) :
    ∃ key, (key, reg) ∈ m.members := by
  obtain ⟨t, -, ht⟩ := List.exists_of_findSome?_eq_some h
  obtain ⟨before, after, hmembers, -⟩ := List.lookup_eq_some_iff.mp ht
  exact ⟨(t, name), hmembers ▸ List.mem_append_right _ List.mem_cons_self⟩

theorem Member.holds_ofValue (name : String) {h : Heap} {found : Option Value}
    (hv : h.HoldsAny found) :
    ∀ member, found.map (ofValue name) = some member → h.Holds member.value := by
  intro member hmember
  obtain ⟨v, hfound, rfl⟩ := Option.map_eq_some_iff.mp hmember
  exact hv v hfound

variable {frame : Frame} {m : Machine} (h : frame.Standard m)
include h

theorem length_grows {f : Builtin} (hf : f = .text .length ∨ f = .sequence .length) (depth : Nat)
    (receiver : Value) :
    Run.Grows (call (depth + 1) .plain (.builtin f) [receiver]) m fun v h => h.Holds v := by
  have hlength {n : Nat} : Run.Grows (pure (.ofNat n)) m fun v h => h.Holds v :=
    .pure (.refl h.sound) (Heap.holds_of_refs rfl)
  have hkind : Run.Grows (Run.defect .wrongKind) m fun v h => h.Holds v :=
    defect_grows h.sound (by decide)
  obtain rfl | rfl := hf
  · cases receiver <;> first | exact hlength | exact hkind
  · cases receiver <;> first | exact hlength | exact hkind

namespace Member

theorem ofRegistration_grows {receiver : Value} (hr : m.heap.Holds receiver) (depth : Nat)
    {lineage : List ValueType} {name : String} {reg : Registration}
    (hreg : m.registration? lineage name = some reg) :
    Run.Grows (ofRegistration (call (depth + 1)) reg receiver name) m
      fun member h => h.Holds member.value := by
  obtain ⟨key, hmem⟩ := Machine.exists_mem_of_registration? hreg
  rw [h.members] at hmem
  obtain ⟨f, hf, hproperty⟩ := exists_builtin_of_mem_memberTable hmem
  unfold ofRegistration
  rw [hf]
  split
  next hp =>
    refine .bind (length_grows h (hproperty hp) depth receiver) fun v n hn hv => ?_
    exact .pure (.refl hn.sound) hv
  next =>
    have hfresh := Act.freshId_grows (s := ⟨m.heap, m.fresh⟩) h.sound
    refine .bind (grows_lift hfresh) fun id n hn _ => ?_
    exact .pure (.refl hn.sound) (hn.holds hr)

theorem findStandard_grows {receiver : Value} (hr : m.heap.Holds receiver) (depth : Nat)
    (name : String) :
    Run.Grows (findStandard (call (depth + 1)) receiver name) m
      fun found h => ∀ member, found = some member → h.Holds member.value := by
  refine .bind (reading_grows h.sound fun m => m.registration? receiver.type.lineage name) ?_
  rintro _ m - ⟨rfl, rfl⟩
  cases hreg : m.registration? receiver.type.lineage name with
  | some reg =>
      refine .bind (ofRegistration_grows h hr depth hreg) fun member n hn hv => ?_
      exact .pure (.refl hn.sound) fun _ hmember => Option.some.inj hmember ▸ hv
  | none =>
      have hentry := Value.entry?_grows (s := ⟨m.heap, m.fresh⟩) h.sound receiver name
      refine .bind (grows_lift hentry) fun entry n hn hentry => ?_
      cases entry with
      | some v => exact .pure (.refl hn.sound) (holds_ofValue name hentry)
      | none =>
          dsimp only
          split
          next => exact .pure (.refl hn.sound) nofun
          next =>
            have hpart := Value.attribute?_grows (s := ⟨n.heap, n.fresh⟩) hn.sound (hn.holds hr)
              name
            refine .bind (grows_lift hpart) fun part k hk hpart => ?_
            exact .pure (.refl hk.sound) (holds_ofValue name hpart)

theorem find_grows {receiver : Value} (hr : m.heap.Holds receiver) (depth : Nat)
    (name : String) :
    Run.Grows (find (call (depth + 1)) .standard receiver name) m
      fun found h => ∀ member, found = some member → h.Holds member.value := by
  refine .bind (reading_grows h.sound fun m => m.hosts .standard) ?_
  rintro _ _ - ⟨rfl, rfl⟩
  rw [h.search]
  exact findStandard_grows h hr depth name

end Member

theorem readField_grows {receiver : Value} (hr : m.heap.Holds receiver) (depth : Nat)
    (name : String) :
    Run.Grows (readField (call (depth + 1)) frame receiver name) m fun v h => h.Holds v := by
  have hhost : Ends Machine.Grown (hostOr frame.host) m fun host n =>
      n = m ∧ host = .standard := by
    rw [← h.host]
    cases frame.host with
    | some host => exact ⟨.refl h.sound, rfl, rfl⟩
    | none => exact ⟨.refl h.sound, rfl, rfl⟩
  have hrequire : Run.Grows (requireMember (call (depth + 1)) frame receiver name) m
      fun member h => h.Holds member.value := by
    refine .bind hhost ?_
    rintro _ _ - ⟨rfl, rfl⟩
    refine .bind (Member.find_grows h hr depth name) fun member n hn hmember => ?_
    cases member with
    | some member => exact .pure (.refl hn.sound) (hmember member rfl)
    | none => exact raise_grows hn.sound _
  exact .bind hrequire fun member n hn hv => .pure (.refl hn.sound) hv

end

/-- A tree that calls neither members nor values, at any depth. -/
inductive Tree.CallFree : Tree → Prop
  | leaf (kind : LeafKind) (text : String) : CallFree (.leaf kind text)
  | node {label : Label} (place : Option Position) {cs : List Tree} :
      label ≠ .method → label ≠ .call → (∀ t ∈ cs, CallFree t) → CallFree (.node label place cs)

namespace Tree

@[simp] theorem callFree_leaf (kind : LeafKind) (text : String) : (leaf kind text).CallFree :=
  .leaf kind text

@[simp] theorem callFree_node {label : Label} {place : Option Position} {cs : List Tree} :
    (node label place cs).CallFree ↔
      label ≠ .method ∧ label ≠ .call ∧ ∀ t ∈ cs, t.CallFree :=
  ⟨fun | .node _ hmethod hcall hcs => ⟨hmethod, hcall, hcs⟩, fun h => .node place h.1 h.2.1 h.2.2⟩

end Tree

section

variable {frame : Frame} {depth : Nat}

theorem operands_grows {left right : Run Value} {m : Machine} (h : frame.Standard m) (op : Tree)
    {apply : String → Value → Value → Act Value}
    (happly : ∀ {s : Arena}, s.heap.Sound → ∀ op a b,
      (apply op a b).Grows s fun v h => h.Holds v)
    (hleft : ∀ n, frame.Standard n → Run.Grows left n fun v h => h.Holds v)
    (hright : ∀ n, frame.Standard n → Run.Grows right n fun v h => h.Holds v) :
    Run.Grows (do
      let op ← operatorText op
      let a ← left
      let b ← right
      apply op a b) m fun v h => h.Holds v := by
  have hop := operatorText_grows (s := ⟨m.heap, m.fresh⟩) h.sound op
  refine .bind (grows_lift hop) fun op n hn _ => ?_
  refine .bind (hleft n (h.grown hn)) fun a k hk _ => ?_
  refine .bind (hright k (h.grown (hn.trans hk))) fun b l hl _ => ?_
  exact grows_lift (happly (s := ⟨l.heap, l.fresh⟩) hl.sound op a b)

mutual

theorem eval_grows {m : Machine} (h : frame.Standard m) {t : Tree} (ht : t.CallFree) :
    Run.Grows (eval (call (depth + 1)) frame t) m fun v h => h.Holds v := by
  cases t with
  | leaf kind text => simpa only [eval_leaf] using h.evalLeaf_grows kind text
  | node label place cs =>
      obtain ⟨hmethod, hcall, hcs⟩ := Tree.callFree_node.mp ht
      unfold eval
      refine grows_located ?_ place
      split
      next c y n =>
        refine .bind (eval_grows h (hcs c (by simp))) fun v k hk _ => ?_
        refine .bind (reading_grows hk.sound Machine.heap) ?_
        rintro _ k - ⟨rfl, rfl⟩
        split
        next => exact eval_grows (h.grown hk) (hcs y (by simp))
        next => exact eval_grows (h.grown hk) (hcs n (by simp))
      next => exact raise_grows h.sound _
      next l r =>
        refine .bind (eval_grows h (hcs l (by simp))) fun v k hk hv => ?_
        cases v with
        | null => exact eval_grows (h.grown hk) (hcs r (by simp))
        | _ => exact .pure (.refl hk.sound) hv
      next l r =>
        refine .bind (eval_grows h (hcs l (by simp))) fun v k hk hv => ?_
        refine .bind (reading_grows hk.sound Machine.heap) ?_
        rintro _ k - ⟨rfl, rfl⟩
        split
        next => exact .pure (.refl hk.sound) hv
        next => exact eval_grows (h.grown hk) (hcs r (by simp))
      next l r =>
        refine .bind (eval_grows h (hcs l (by simp))) fun v k hk hv => ?_
        refine .bind (reading_grows hk.sound Machine.heap) ?_
        rintro _ k - ⟨rfl, rfl⟩
        split
        next => exact eval_grows (h.grown hk) (hcs r (by simp))
        next => exact .pure (.refl hk.sound) hv
      next l op r =>
        exact operands_grows h op Value.comparison_grows
          (fun n hn => eval_grows hn (hcs l (by simp))) fun n hn => eval_grows hn (hcs r (by simp))
      iterate 3
        next l op r =>
          exact operands_grows h op Value.binary_grows
            (fun n hn => eval_grows hn (hcs l (by simp)))
            fun n hn => eval_grows hn (hcs r (by simp))
      next op t =>
        have hop := operatorText_grows (s := ⟨m.heap, m.fresh⟩) h.sound op
        refine .bind (grows_lift hop) fun op n hn _ => ?_
        refine .bind (eval_grows (h.grown hn) (hcs t (by simp))) fun v k hk _ => ?_
        exact grows_lift (Value.signed_grows (s := ⟨k.heap, k.fresh⟩) hk.sound op v)
      next head steps =>
        refine .bind (eval_grows h (hcs head (by simp))) fun v k hk hv => ?_
        exact evalSteps_grows (h.grown hk) hv fun step hstep => hcs step (by simp [hstep])
      next =>
        refine .bind (evalAll_grows h hcs) fun vs k hk hvs => ?_
        exact grows_lift (Act.newList_grows (s := ⟨k.heap, k.fresh⟩) hk.sound hvs)
      next params body => exact h.makeClosure_grows params body
      next =>
        split
        next => exact defect_grows h.sound (by decide)
        next => exact raise_grows h.sound _
termination_by sizeOf t

theorem evalAll_grows {m : Machine} (h : frame.Standard m) {ts : List Tree}
    (hts : ∀ t ∈ ts, t.CallFree) :
    Run.Grows (evalAll (call (depth + 1)) frame ts) m fun vs h => h.HoldsAll vs := by
  cases ts with
  | nil => exact .pure (.refl h.sound) (List.forall_mem_nil _)
  | cons t ts =>
      simp only [evalAll]
      refine .bind (eval_grows h (hts t (by simp))) fun v k hk hv => ?_
      refine .bind (evalAll_grows (h.grown hk) fun u hu => hts u (by simp [hu])) ?_
      intro vs l hl hvs
      exact .pure (.refl hl.sound) (List.forall_mem_cons.mpr ⟨hl.holds hv, hvs⟩)
termination_by sizeOf ts

theorem evalSteps_grows {m : Machine} (h : frame.Standard m) {receiver : Value}
    (hr : m.heap.Holds receiver) {steps : List Tree} (hsteps : ∀ t ∈ steps, t.CallFree) :
    Run.Grows (evalSteps (call (depth + 1)) frame receiver steps) m fun v h => h.Holds v := by
  cases steps with
  | nil => exact .pure (.refl h.sound) hr
  | cons step steps =>
      simp only [evalSteps]
      refine .bind (evalStep_grows h hr (hsteps step (by simp))) fun v k hk hv => ?_
      exact evalSteps_grows (h.grown hk) hv fun u hu => hsteps u (by simp [hu])
termination_by sizeOf steps

theorem evalStep_grows {m : Machine} (h : frame.Standard m) {receiver : Value}
    (hr : m.heap.Holds receiver) {step : Tree} (hstep : step.CallFree) :
    Run.Grows (evalStep (call (depth + 1)) frame receiver step) m fun v h => h.Holds v := by
  cases step with
  | leaf kind text => exact defect_grows h.sound (by decide)
  | node label place cs =>
      obtain ⟨hmethod, hcall, hcs⟩ := Tree.callFree_node.mp hstep
      simp only [evalStep]
      unfold evalStepParts
      split
      next name rest => exact readField_grows h hr depth _
      next => exact absurd rfl hmethod
      next => exact absurd rfl hmethod
      next i rest =>
        refine .bind (eval_grows h (hcs i (by simp))) fun v k hk _ => ?_
        exact grows_lift (Value.index_grows (s := ⟨k.heap, k.fresh⟩) hk.sound receiver v)
      next => exact absurd rfl hcall
      iterate 3 next => exact defect_grows h.sound (by decide)
      next => exact raise_grows h.sound _
termination_by sizeOf step

end

end

/-- A container that a heap does not hold is mentioned by nothing in it. -/
theorem Heap.Holds.not_mem_refs {h : Heap} {v : Value} {r : Ref} (hv : h.Holds v)
    (hr : h.cell? r = none) : r ∉ v.refs := by
  intro hmem
  obtain ⟨c, hc⟩ := Heap.exists_cell? (hv r hmem)
  cases hr.symm.trans hc

/-- A run in an activation that comes to an end and changes nothing that was there: neither a
container, the scope among them, nor any part of the state but the heap and the count of
functions. -/
structure Frame.Preserves (frame : Frame) (m : Machine)
    (result : EStateM.Result Stop Machine Value) : Prop where
  ends : ∀ stop, stopOf result = some stop → stop.isEndless = false
  /-- The bound on the nesting of what is compared is never reached. -/
  compares : ∀ n v w, (endOf result).heap.depth ≤ n →
    (endOf result).heap.equalAt n v w = (endOf result).heap.equal v w ∧
      (endOf result).heap.keyAt? n v = (endOf result).heap.key? v
  rest : endOf result = { m with heap := (endOf result).heap, fresh := (endOf result).fresh }
  kept : ∀ r c, m.heap.cell? r = some c → (endOf result).heap.cell? r = some c
  held : ∀ v n, result = .ok v n → n.heap.Holds v
  /-- Nothing that was there mentions a container that was not. -/
  unaliased : ∀ new, m.heap.cell? new = none →
    (∀ r c, m.heap.cell? r ≠ none → (endOf result).heap.cell? r = some c →
      ∀ v ∈ c.values, new ∉ v.refs) ∧
    (∀ p ∈ frame.locals, new ∉ p.2.refs) ∧ frame.scope ≠ some new ∧
    ∀ p ∈ (endOf result).globals, new ∉ p.2.refs

/-- The evaluation of a tree without calls comes to an end, be it with an error, and preserves all
that was there. -/
theorem eval_preserves {frame : Frame} {m : Machine} (h : frame.Standard m) {t : Tree}
    (ht : t.CallFree) (depth : Nat) :
    frame.Preserves m (eval (call (depth + 1)) frame t m) := by
  have hgrows : Run.Grows (eval (call (depth + 1)) frame t) m fun v h => h.Holds v :=
    eval_grows h ht
  unfold Grows Ends at hgrows
  generalize eval (call (depth + 1)) frame t m = result at hgrows
  have hgrown : m.Grown (endOf result) := by
    cases result <;> exact hgrows.1
  have hframe := h.grown hgrown
  refine ⟨fun stop hstop => ?_, fun n v w hn => ?_, hgrown.rest, hgrown.kept, fun v n hv => ?_,
    fun new hnew => ⟨fun r c hr hc v hv => ?_, fun p hp => ?_, fun hscope => ?_, ?_⟩⟩
  · cases result with
    | ok v n => cases hstop
    | error stop n =>
        cases hstop
        exact hgrows.2
  · exact ⟨hgrown.sound.equalAt_eq hn v w, hgrown.sound.keyAt?_eq hn v⟩
  · subst hv
    exact hgrows.2
  · obtain ⟨old, hold⟩ := Option.ne_none_iff_exists'.mp hr
    obtain rfl := Option.some.inj ((hgrown.kept r old hold).symm.trans hc)
    exact (h.sound.closed r old hold v hv).not_mem_refs hnew
  · exact (h.locals p hp).not_mem_refs hnew
  · obtain ⟨c, hc⟩ := Heap.exists_cell? (h.scope new hscope)
    cases hnew.symm.trans hc
  · have hglobals : (endOf result).globals = m.globals := by rw [hgrown.rest]
    rw [hglobals]
    exact fun p hp => (h.globals p hp).not_mem_refs hnew

theorem Heap.Sound.of_flat {h : Heap}
    (hflat : ∀ c ∈ h.cells.toList, ∀ v ∈ c.values, v.refs = []) : h.Sound := by
  have hcell {r : Ref} {c : Cell} (hr : h.cell? r = some c) : c ∈ h.cells.toList :=
    Array.mem_toList_iff.mpr (Array.mem_of_getElem? hr)
  refine ⟨fun r c hr v hv => Heap.holds_of_refs (hflat c (hcell hr) v hv), fun r hr => ?_⟩
  obtain ⟨s, ⟨c, hc, v, hv, hs⟩, -⟩ := Relation.TransGen.head'_iff.mp hr
  have hrefs := hflat c (hcell hc) v hv
  have hmem := Value.mem_refs_of_container? hs
  rw [hrefs] at hmem
  cases hmem

def Machine.withLists : Machine :=
  { Machine.initial with heap := { cells := #[.record [], .list #[.ofInt 1], .list #[.ofInt 2]] } }

def Frame.withLists : Frame :=
  ⟨[("a", .list ⟨1, none⟩), ("b", .list ⟨2, none⟩)], none, none⟩

theorem standard_withLists : Frame.withLists.Standard Machine.withLists where
  members := rfl
  host := rfl
  search := rfl
  locals := by decide
  scope := nofun
  globals := by decide
  sound := .of_flat (by decide)

/-- `[a + b, a.length]` -/
def sumTree : Tree :=
  .node .array none [.node .add none [.leaf .ident "a", .leaf .op "+", .leaf .ident "b"],
    .node .chain none [.leaf .ident "a", .node .field none [.leaf .name "length"]]]

theorem callFree_sumTree : sumTree.CallFree := by
  simp [sumTree]

/-- The sum is a new list, and the lists of before are as they were. -/
theorem eval_preserves_sum :
    Frame.withLists.Standard Machine.withLists ∧ sumTree.CallFree ∧
      Frame.withLists.Preserves Machine.withLists
        (eval (call 1) Frame.withLists sumTree Machine.withLists) :=
  ⟨standard_withLists, callFree_sumTree, eval_preserves standard_withLists callFree_sumTree 0⟩

example : stopOf (eval (call 1) Frame.withLists sumTree Machine.withLists) = none := rfl

end StringLambda
