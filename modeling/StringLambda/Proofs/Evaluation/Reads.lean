import StringLambda.Proofs.Evaluation.Alike
import StringLambda.Proofs.Evaluation.Setting

namespace StringLambda

open Run

/-! The variables that evaluation reads. They are all that a tree without nested lambdas takes from
the activation around it, next to the host. -/

inductive Tree.ArrowFree : Tree → Prop
  | leaf (kind : LeafKind) (text : String) : ArrowFree (.leaf kind text)
  | node {label : Label} (place : Option Position) {cs : List Tree} :
      label ≠ .arrow → (∀ t ∈ cs, ArrowFree t) → ArrowFree (.node label place cs)

namespace Tree

@[simp] theorem arrowFree_leaf (kind : LeafKind) (text : String) : (leaf kind text).ArrowFree :=
  .leaf kind text

@[simp] theorem arrowFree_node {label : Label} {place : Option Position} {cs : List Tree} :
    (node label place cs).ArrowFree ↔ label ≠ .arrow ∧ ∀ t ∈ cs, t.ArrowFree :=
  ⟨fun | .node _ harrow hcs => ⟨harrow, hcs⟩, fun h => .node place h.1 h.2⟩

end Tree

def Run.following {α β : Type} (act : Run α) (m : Machine) (list : α → Machine → List β) : List β :=
  match act m with
  | .ok a n => list a n
  | .error _ _ => []

section

variable (call : Caller) (frame : Frame)

mutual

/-- The variables that the evaluation of a tree reads, in order, each with the state in which it is
read. A nested lambda reads nothing when it is made. -/
def Tree.reads : Tree → Machine → List (String × Machine)
  | .leaf .ident name => fun m => [(name, m)]
  | .leaf _ _ => fun _ => []
  | .node label _ children => fun m =>
    match label, children with
    | .ternary, [condition, yes, no] =>
      condition.reads m ++ following (eval call frame condition) m fun v n =>
        if n.heap.truthy v then yes.reads n else no.reads n
    | .nullish, [left, right] =>
      left.reads m ++ following (eval call frame left) m fun v n =>
        match v with
        | .null => right.reads n
        | _ => []
    | .or, [left, right] =>
      left.reads m ++ following (eval call frame left) m fun v n =>
        if n.heap.truthy v then [] else right.reads n
    | .and, [left, right] =>
      left.reads m ++ following (eval call frame left) m fun v n =>
        if n.heap.truthy v then right.reads n else []
    | .compare, [left, op, right] | .add, [left, op, right] | .mul, [left, op, right]
    | .pow, [left, op, right] =>
      following (operatorText op) m fun _ n =>
        left.reads n ++ following (eval call frame left) n fun _ k => right.reads k
    | .unary, [op, operand] => following (operatorText op) m fun _ n => operand.reads n
    | .chain, head :: steps =>
      head.reads m ++ following (eval call frame head) m fun v n =>
        Tree.readsOfSteps v steps n
    | .array, elements => Tree.readsOfAll elements m
    | _, _ => []

def Tree.readsOfAll : List Tree → Machine → List (String × Machine)
  | [] => fun _ => []
  | t :: ts => fun m =>
    t.reads m ++ following (eval call frame t) m fun _ n => Tree.readsOfAll ts n

def Tree.readsOfSteps (receiver : Value) : List Tree → Machine → List (String × Machine)
  | [] => fun _ => []
  | step :: steps => fun m =>
    step.readsOfStep m ++ following (evalStep call frame receiver step) m fun v n =>
      Tree.readsOfSteps v steps n

def Tree.readsOfStep : Tree → Machine → List (String × Machine)
  | .leaf _ _ => fun _ => []
  | .node label _ children => fun m =>
    match label, children with
    | .method, [_, args] => args.readsOfArgs m
    | .index, i :: _ => i.reads m
    | .call, args :: _ => args.readsOfArgs m
    | _, _ => []

def Tree.readsOfArgs : Tree → Machine → List (String × Machine)
  | .leaf _ _ => fun _ => []
  | .node _ _ children => Tree.readsOfAll children

end

end

def Frame.AgreeOn (frame other : Frame) (rs : List (String × Machine)) : Prop :=
  ∀ r ∈ rs, frame.get r.1 r.2 = other.get r.1 r.2

section

variable {frame other : Frame} {m : Machine}

theorem Frame.agreeOn_append {rs rs' : List (String × Machine)} :
    frame.AgreeOn other (rs ++ rs') ↔ frame.AgreeOn other rs ∧ frame.AgreeOn other rs' :=
  List.forall_mem_append

theorem Frame.AgreeOn.of_following {α : Type} {act : Run α} {a : α} {n : Machine}
    {list : α → Machine → List (String × Machine)} (h : frame.AgreeOn other (following act m list))
    (ha : act m = .ok a n) : frame.AgreeOn other (list a n) := by
  rwa [following, ha] at h

theorem Run.bind_congr_of_ok {α β : Type} {act act' : Run α} {f f' : α → Run β}
    (h : act m = act' m) (hf : ∀ a n, act m = .ok a n → f a n = f' a n) :
    (act >>= f) m = (act' >>= f') m := by
  simp only [Bind.bind, EStateM.bind, ← h]
  cases ha : act m with
  | ok a n => exact hf a n ha
  | error stop n => rfl

theorem Run.heap_bind {α : Type} (f : Heap → Run α) (m : Machine) :
    (Run.heap >>= f) m = f m.heap m := rfl

theorem Run.located_congr_at {α : Type} {act act' : Run α} {place : Option Position}
    (h : act m = act' m) : located place act m = located place act' m := by
  simp only [located, mapStop, h]

end

section

variable (call : Caller) (frame other : Frame)

/-- Activations that agree on what a tree reads give it the same value, the same effects and the
same errors. -/
structure Tree.Coincides (t : Tree) : Prop where
  eval : ∀ m, frame.AgreeOn other (t.reads call frame m) →
    StringLambda.eval call frame t m = StringLambda.eval call other t m
  step : ∀ receiver m, frame.AgreeOn other (t.readsOfStep call frame m) →
    evalStep call frame receiver t m = evalStep call other receiver t m
  args : ∀ m, frame.AgreeOn other (t.readsOfArgs call frame m) →
    evalArgs call frame t m = evalArgs call other t m

end

section

variable {call : Caller} {frame other : Frame} {m : Machine} {ts cs : List Tree}

theorem evalAll_coincides (hts : ∀ t ∈ ts, t.Coincides call frame other)
    (h : frame.AgreeOn other (Tree.readsOfAll call frame ts m)) :
    evalAll call frame ts m = evalAll call other ts m := by
  induction ts generalizing m with
  | nil => rfl
  | cons t ts ih =>
      rw [List.forall_mem_cons] at hts
      obtain ⟨hhead, htail⟩ := Frame.agreeOn_append.mp h
      simp only [evalAll]
      refine bind_congr_of_ok (hts.1.eval m hhead) fun v n hv => ?_
      exact bind_congr_of_ok (ih hts.2 (htail.of_following hv)) fun vs k _ => rfl

theorem evalSteps_coincides (hts : ∀ t ∈ ts, t.Coincides call frame other) {receiver : Value}
    (h : frame.AgreeOn other (Tree.readsOfSteps call frame receiver ts m)) :
    evalSteps call frame receiver ts m = evalSteps call other receiver ts m := by
  induction ts generalizing receiver m with
  | nil => rfl
  | cons t ts ih =>
      rw [List.forall_mem_cons] at hts
      obtain ⟨hhead, htail⟩ := Frame.agreeOn_append.mp h
      simp only [evalSteps]
      exact bind_congr_of_ok (hts.1.step receiver m hhead) fun v n hv =>
        ih hts.2 (htail.of_following hv)

/-! What a node evaluates to, given that its children coincide. -/

section

variable {place : Option Position} (hcs : ∀ t ∈ cs, t.Coincides call frame other)
include hcs

theorem eval_ternary_coincides
    (h : frame.AgreeOn other ((Tree.node .ternary place cs).reads call frame m)) :
    eval call frame (.node .ternary place cs) m = eval call other (.node .ternary place cs) m := by
  rcases cs with _ | ⟨c, _ | ⟨y, _ | ⟨n, _ | _⟩⟩⟩
  case cons.cons.cons.nil =>
    simp only [List.forall_mem_cons] at hcs
    simp only [Tree.reads, Frame.agreeOn_append] at h
    simp only [eval]
    refine located_congr_at (bind_congr_of_ok (hcs.1.eval m h.1) fun v k hv => ?_)
    have hbranch := h.2.of_following hv
    rw [heap_bind, heap_bind]
    split at hbranch
    next htruthy =>
      simp only [if_pos htruthy]
      exact hcs.2.1.eval k hbranch
    next htruthy =>
      simp only [if_neg htruthy]
      exact hcs.2.2.1.eval k hbranch
  all_goals simp only [eval]

theorem eval_nullish_coincides
    (h : frame.AgreeOn other ((Tree.node .nullish place cs).reads call frame m)) :
    eval call frame (.node .nullish place cs) m = eval call other (.node .nullish place cs) m := by
  rcases cs with _ | ⟨l, _ | ⟨r, _ | _⟩⟩
  case cons.cons.nil =>
    simp only [List.forall_mem_cons] at hcs
    simp only [Tree.reads, Frame.agreeOn_append] at h
    simp only [eval]
    refine located_congr_at (bind_congr_of_ok (hcs.1.eval m h.1) fun v k hv => ?_)
    have hright := h.2.of_following hv
    cases v with
    | null => exact hcs.2.1.eval k hright
    | _ => rfl
  all_goals simp only [eval]

theorem eval_or_coincides
    (h : frame.AgreeOn other ((Tree.node .or place cs).reads call frame m)) :
    eval call frame (.node .or place cs) m = eval call other (.node .or place cs) m := by
  rcases cs with _ | ⟨l, _ | ⟨r, _ | _⟩⟩
  case cons.cons.nil =>
    simp only [List.forall_mem_cons] at hcs
    simp only [Tree.reads, Frame.agreeOn_append] at h
    simp only [eval]
    refine located_congr_at (bind_congr_of_ok (hcs.1.eval m h.1) fun v k hv => ?_)
    have hright := h.2.of_following hv
    rw [heap_bind, heap_bind]
    split at hright
    next htruthy => simp only [if_pos htruthy]
    next htruthy =>
      simp only [if_neg htruthy]
      exact hcs.2.1.eval k hright
  all_goals simp only [eval]

theorem eval_and_coincides
    (h : frame.AgreeOn other ((Tree.node .and place cs).reads call frame m)) :
    eval call frame (.node .and place cs) m = eval call other (.node .and place cs) m := by
  rcases cs with _ | ⟨l, _ | ⟨r, _ | _⟩⟩
  case cons.cons.nil =>
    simp only [List.forall_mem_cons] at hcs
    simp only [Tree.reads, Frame.agreeOn_append] at h
    simp only [eval]
    refine located_congr_at (bind_congr_of_ok (hcs.1.eval m h.1) fun v k hv => ?_)
    have hright := h.2.of_following hv
    rw [heap_bind, heap_bind]
    split at hright
    next htruthy =>
      simp only [if_pos htruthy]
      exact hcs.2.1.eval k hright
    next htruthy => simp only [if_neg htruthy]
  all_goals simp only [eval]

theorem eval_operator_coincides {label : Label}
    (hlabel : label = .compare ∨ label = .add ∨ label = .mul ∨ label = .pow)
    (h : frame.AgreeOn other ((Tree.node label place cs).reads call frame m)) :
    eval call frame (.node label place cs) m = eval call other (.node label place cs) m := by
  rcases cs with _ | ⟨l, _ | ⟨op, _ | ⟨r, _ | _⟩⟩⟩
  case cons.cons.cons.nil =>
    simp only [List.forall_mem_cons] at hcs
    rcases hlabel with rfl | rfl | rfl | rfl
    all_goals
      simp only [Tree.reads] at h
      simp only [eval]
      refine located_congr_at (bind_congr_of_ok rfl fun op k hop => ?_)
      obtain ⟨hleft, hright⟩ := Frame.agreeOn_append.mp (h.of_following hop)
      refine bind_congr_of_ok (hcs.1.eval k hleft) fun a k' ha => ?_
      exact bind_congr_of_ok (hcs.2.2.1.eval k' (hright.of_following ha)) fun b _ _ => rfl
  all_goals rcases hlabel with rfl | rfl | rfl | rfl <;> simp only [eval]

theorem eval_unary_coincides
    (h : frame.AgreeOn other ((Tree.node .unary place cs).reads call frame m)) :
    eval call frame (.node .unary place cs) m = eval call other (.node .unary place cs) m := by
  rcases cs with _ | ⟨op, _ | ⟨t, _ | _⟩⟩
  case cons.cons.nil =>
    simp only [List.forall_mem_cons] at hcs
    simp only [Tree.reads] at h
    simp only [eval]
    refine located_congr_at (bind_congr_of_ok rfl fun op k hop => ?_)
    exact bind_congr_of_ok (hcs.2.1.eval k (h.of_following hop)) fun v _ _ => rfl
  all_goals simp only [eval]

theorem eval_chain_coincides
    (h : frame.AgreeOn other ((Tree.node .chain place cs).reads call frame m)) :
    eval call frame (.node .chain place cs) m = eval call other (.node .chain place cs) m := by
  rcases cs with _ | ⟨head, steps⟩
  case cons =>
    rw [List.forall_mem_cons] at hcs
    simp only [Tree.reads, Frame.agreeOn_append] at h
    simp only [eval]
    refine located_congr_at (bind_congr_of_ok (hcs.1.eval m h.1) fun v k hv => ?_)
    exact evalSteps_coincides hcs.2 (h.2.of_following hv)
  all_goals simp only [eval]

theorem evalStep_coincides (hhost : frame.host = other.host) {label : Label} {receiver : Value}
    (h : frame.AgreeOn other ((Tree.node label place cs).readsOfStep call frame m)) :
    evalStep call frame receiver (.node label place cs) m =
      evalStep call other receiver (.node label place cs) m := by
  simp only [evalStep]
  cases label with
  | field =>
      cases cs with
      | nil => rfl
      | cons name _ => simp only [evalStepParts, readField_congr call hhost]
  | method =>
      rcases cs with _ | ⟨name, _ | ⟨args, _ | _⟩⟩
      case cons.cons.nil =>
        simp only [List.forall_mem_cons] at hcs
        simp only [evalStepParts, callMember_congr call hhost]
        exact bind_congr_of_ok (hcs.2.1.args m h) fun args _ _ => rfl
      all_goals rfl
  | index =>
      cases cs with
      | nil => rfl
      | cons i _ =>
          rw [List.forall_mem_cons] at hcs
          simp only [evalStepParts]
          exact bind_congr_of_ok (hcs.1.eval m h) fun v _ _ => rfl
  | call =>
      cases cs with
      | nil => rfl
      | cons args _ =>
          rw [List.forall_mem_cons] at hcs
          simp only [evalStepParts]
          exact bind_congr_of_ok (hcs.1.args m h) fun args _ _ => rfl
  | _ => simp only [evalStepParts]

end

/-- A tree without nested lambdas takes nothing from an activation but its host and what is found
there for the variables that are read. -/
theorem Tree.ArrowFree.coincides {t : Tree} (ht : t.ArrowFree) (hhost : frame.host = other.host) :
    t.Coincides call frame other := by
  induction ht with
  | leaf kind text =>
      refine ⟨fun m h => ?_, fun _ _ _ => rfl, fun _ _ => rfl⟩
      cases kind with
      | ident => exact h _ (List.mem_singleton_self _)
      | _ => rfl
  | @node label place cs harrow _ ih =>
      refine ⟨fun m h => ?_, fun receiver m h => evalStep_coincides ih hhost h,
        fun m h => evalAll_coincides ih h⟩
      cases label with
      | ternary => exact eval_ternary_coincides ih h
      | nullish => exact eval_nullish_coincides ih h
      | or => exact eval_or_coincides ih h
      | and => exact eval_and_coincides ih h
      | compare | add | mul | pow => exact eval_operator_coincides ih (by simp) h
      | unary => exact eval_unary_coincides ih h
      | chain => exact eval_chain_coincides ih h
      | array =>
          simp only [eval]
          exact located_congr_at (bind_congr_of_ok (evalAll_coincides ih h) fun vs _ _ => rfl)
      | arrow => exact absurd rfl harrow
      | _ => simp only [eval]

end

def ReadsWithin (names : List String) (m : Machine) (rs : List (String × Machine)) : Prop :=
  ∀ r ∈ rs, r.1 ∈ names ∧ r.2.globals = m.globals

namespace ReadsWithin

variable {names names' : List String} {m : Machine} {rs rs' : List (String × Machine)}

theorem append (h : ReadsWithin names m rs) (h' : ReadsWithin names' m rs') :
    ReadsWithin (names ++ names') m (rs ++ rs') := by
  intro r hr
  rcases List.mem_append.mp hr with hr | hr
  · exact ⟨List.mem_append_left _ (h r hr).1, (h r hr).2⟩
  · exact ⟨List.mem_append_right _ (h' r hr).1, (h' r hr).2⟩

theorem following {α : Type} {act : Run α} {list : α → Machine → List (String × Machine)}
    (hact : act.KeepsSetting) (h : ∀ a n, ReadsWithin names n (list a n)) :
    ReadsWithin names m (Run.following act m list) := by
  have hkeeps := (hact m).globals
  intro r hr
  rw [Run.following] at hr
  cases ha : act m with
  | ok a n =>
      rw [ha] at hr hkeeps
      exact ⟨(h a n r hr).1, (h a n r hr).2.trans hkeeps⟩
  | error stop n =>
      rw [ha] at hr
      cases hr

theorem mono (h : ReadsWithin names m rs) (hle : names ⊆ names') : ReadsWithin names' m rs :=
  fun r hr => ⟨hle (h r hr).1, (h r hr).2⟩

theorem nil : ReadsWithin names m [] := nofun

end ReadsWithin

/-- What a tree reads are its free names. -/
structure Tree.ReadsNames (depth : Nat) (frame : Frame) (t : Tree) : Prop where
  eval : ∀ m, ReadsWithin t.freeNames m (t.reads (call depth) frame m)
  step : ∀ m, ReadsWithin t.freeNames m (t.readsOfStep (call depth) frame m)
  args : ∀ m, ReadsWithin t.freeNames m (t.readsOfArgs (call depth) frame m)

section

variable {depth : Nat} {frame : Frame} {m : Machine} {ts : List Tree}

theorem readsOfAll_within (hts : ∀ t ∈ ts, t.ReadsNames depth frame) :
    ReadsWithin (Tree.freeNamesOf ts) m (Tree.readsOfAll (call depth) frame ts m) := by
  induction ts generalizing m with
  | nil => exact .nil
  | cons t ts ih =>
      rw [List.forall_mem_cons] at hts
      exact (hts.1.eval m).append (.following (eval_keepsSetting _ _ _) fun v n => ih hts.2)

theorem readsOfSteps_within (hts : ∀ t ∈ ts, t.ReadsNames depth frame) {receiver : Value} :
    ReadsWithin (Tree.freeNamesOf ts) m
      (Tree.readsOfSteps (call depth) frame receiver ts m) := by
  induction ts generalizing receiver m with
  | nil => exact .nil
  | cons t ts ih =>
      rw [List.forall_mem_cons] at hts
      exact (hts.1.step m).append (.following (evalStep_keepsSetting _ _ _ _) fun v n => ih hts.2)

/-! What a node reads, given what its children read. -/

section

variable {label : Label} {place : Option Position} {cs : List Tree}
  (hcs : ∀ t ∈ cs, t.ReadsNames depth frame)
include hcs

theorem reads_ternary_within :
    ReadsWithin (Tree.freeNamesOf cs) m
      ((Tree.node .ternary place cs).reads (call depth) frame m) := by
  rcases cs with _ | ⟨c, _ | ⟨y, _ | ⟨n, _ | _⟩⟩⟩
  case cons.cons.cons.nil =>
    simp only [List.forall_mem_cons] at hcs
    simp only [Tree.reads, Tree.freeNamesOf]
    refine (hcs.1.eval m).append (.following (eval_keepsSetting _ _ _) fun v k => ?_)
    split
    next => exact (hcs.2.1.eval k).mono (by simp)
    next => exact (hcs.2.2.1.eval k).mono (by simp)
  all_goals exact .nil

theorem reads_binary_within (hlabel : label = .nullish ∨ label = .or ∨ label = .and) :
    ReadsWithin (Tree.freeNamesOf cs) m
      ((Tree.node label place cs).reads (call depth) frame m) := by
  rcases cs with _ | ⟨l, _ | ⟨r, _ | _⟩⟩
  case cons.cons.nil =>
    simp only [List.forall_mem_cons] at hcs
    have hright (k : Machine) : ReadsWithin (r.freeNames ++ []) k (r.reads (call depth) frame k) :=
      (hcs.2.1.eval k).mono (by simp)
    rcases hlabel with rfl | rfl | rfl
    all_goals
      simp only [Tree.reads, Tree.freeNamesOf]
      refine (hcs.1.eval m).append (.following (eval_keepsSetting _ _ _) fun v k => ?_)
      split <;> first | exact hright k | exact .nil
  all_goals rcases hlabel with rfl | rfl | rfl <;> exact .nil

theorem reads_operator_within
    (hlabel : label = .compare ∨ label = .add ∨ label = .mul ∨ label = .pow) :
    ReadsWithin (Tree.freeNamesOf cs) m
      ((Tree.node label place cs).reads (call depth) frame m) := by
  rcases cs with _ | ⟨l, _ | ⟨op, _ | ⟨r, _ | _⟩⟩⟩
  case cons.cons.cons.nil =>
    simp only [List.forall_mem_cons] at hcs
    rcases hlabel with rfl | rfl | rfl | rfl
    all_goals
      simp only [Tree.reads, Tree.freeNamesOf]
      refine .following (Plain.lift _).keeps fun _ k => (hcs.1.eval k).append ?_
      exact .following (eval_keepsSetting _ _ _) fun v k' => (hcs.2.2.1.eval k').mono (by simp)
  all_goals rcases hlabel with rfl | rfl | rfl | rfl <;> exact .nil

theorem reads_unary_within :
    ReadsWithin (Tree.freeNamesOf cs) m
      ((Tree.node .unary place cs).reads (call depth) frame m) := by
  rcases cs with _ | ⟨op, _ | ⟨t, _ | _⟩⟩
  case cons.cons.nil =>
    simp only [List.forall_mem_cons] at hcs
    simp only [Tree.reads, Tree.freeNamesOf]
    exact .following (Plain.lift _).keeps fun _ k => (hcs.2.1.eval k).mono (by simp)
  all_goals exact .nil

theorem reads_chain_within :
    ReadsWithin (Tree.freeNamesOf cs) m
      ((Tree.node .chain place cs).reads (call depth) frame m) := by
  cases cs with
  | nil => exact .nil
  | cons head steps =>
      rw [List.forall_mem_cons] at hcs
      simp only [Tree.reads, Tree.freeNamesOf]
      exact (hcs.1.eval m).append
        (.following (eval_keepsSetting _ _ _) fun v k => readsOfSteps_within hcs.2)

theorem readsOfStep_within :
    ReadsWithin (Tree.freeNamesOf cs) m
      ((Tree.node label place cs).readsOfStep (call depth) frame m) := by
  cases label with
  | method =>
      rcases cs with _ | ⟨name, _ | ⟨args, _ | _⟩⟩
      case cons.cons.nil =>
        simp only [List.forall_mem_cons] at hcs
        exact (hcs.2.1.args m).mono (by simp [Tree.freeNamesOf])
      all_goals exact .nil
  | index =>
      cases cs with
      | nil => exact .nil
      | cons i _ =>
          rw [List.forall_mem_cons] at hcs
          exact (hcs.1.eval m).mono (by simp [Tree.freeNamesOf])
  | call =>
      cases cs with
      | nil => exact .nil
      | cons args _ =>
          rw [List.forall_mem_cons] at hcs
          exact (hcs.1.args m).mono (by simp [Tree.freeNamesOf])
  | _ => exact .nil

end

theorem Tree.ArrowFree.readsNames {t : Tree} (ht : t.ArrowFree) : t.ReadsNames depth frame := by
  induction ht with
  | leaf kind text =>
      refine ⟨fun m => ?_, fun _ => .nil, fun _ => .nil⟩
      cases kind with
      | ident => exact fun r hr => by cases List.mem_singleton.mp hr; exact ⟨.head _, rfl⟩
      | _ => exact .nil
  | @node label place cs harrow _ ih =>
      refine ⟨fun m => ?_, fun m => ?_, fun m => ?_⟩ <;> rw [freeNames_node harrow]
      · cases label with
        | ternary => exact reads_ternary_within ih
        | nullish | or | and => exact reads_binary_within ih (by simp)
        | compare | add | mul | pow => exact reads_operator_within ih (by simp)
        | unary => exact reads_unary_within ih
        | chain => exact reads_chain_within ih
        | array => exact readsOfAll_within ih
        | _ => exact .nil
      · exact readsOfStep_within ih
      · exact readsOfAll_within ih

end

end StringLambda
