import StringLambda.Proofs.Evaluation.Congruence
import StringLambda.Proofs.Parsing.Soundness

namespace StringLambda

/-! The places of evaluation errors. Evaluation gives an error its place on the way out, at the
innermost node around it that has one. Another evaluation is handed the evaluations that are
running, and has each operation place its errors at once; the two are the same. -/

def innermostPlace? (running : List Tree) : Option Position :=
  running.findSome? Tree.place?

/-- An operation within the running evaluations, the innermost first. What it refuses without a
place has the innermost place. -/
def Run.inside {α : Type} (running : List Tree) (act : Run α) : Run α := fun m =>
  match act m with
  | .error (.fault (.evaluation issue none)) n =>
    .error (.fault (.evaluation issue (innermostPlace? running))) n
  | outcome => outcome

section

variable (call : List Tree → Caller)

mutual

/-- The value of a tree, where each operation is told the evaluations that it is within. -/
def evalInside (running : List Tree) (frame : Frame) : Tree → Run Value
  | .leaf kind text => Run.inside (.leaf kind text :: running) (evalLeaf frame kind text)
  | .node label place children =>
    let running := .node label place children :: running
    match label, children with
    | .ternary, [condition, yes, no] => do
      let v ← evalInside running frame condition
      if (← Run.heap).truthy v then evalInside running frame yes else evalInside running frame no
    | .ternary, _ => Run.inside running (Run.raise .malformedTernary)
    | .nullish, [left, right] => do
      match ← evalInside running frame left with
      | .null => evalInside running frame right
      | v => return v
    | .or, [left, right] => do
      let v ← evalInside running frame left
      if (← Run.heap).truthy v then return v else evalInside running frame right
    | .and, [left, right] => do
      let v ← evalInside running frame left
      if (← Run.heap).truthy v then evalInside running frame right else return v
    | .compare, [left, op, right] => do
      let op ← Run.inside running (operatorText op)
      let a ← evalInside running frame left
      let b ← evalInside running frame right
      Run.inside running (Value.comparison op a b)
    | .add, [left, op, right] | .mul, [left, op, right] | .pow, [left, op, right] => do
      let op ← Run.inside running (operatorText op)
      let a ← evalInside running frame left
      let b ← evalInside running frame right
      Run.inside running (Value.binary op a b)
    | .unary, [op, operand] => do
      let op ← Run.inside running (operatorText op)
      let v ← evalInside running frame operand
      Run.inside running (Value.signed op v)
    | .chain, head :: steps => do
      evalStepsInside running frame (← evalInside running frame head) steps
    | .array, elements => do
      Run.newList (← evalAllInside running frame elements)
    | .arrow, [params, body] => Run.inside running (makeClosure frame params body)
    | label, _ =>
      if label.isExpression then Run.defect .wrongValue
      else Run.inside running (Run.raise (.unsupportedNode label.text))
termination_by structural t => t

def evalAllInside (running : List Tree) (frame : Frame) : List Tree → Run (List Value)
  | [] => pure []
  | t :: ts => do
    let v ← evalInside running frame t
    return v :: (← evalAllInside running frame ts)
termination_by structural ts => ts

def evalStepsInside (running : List Tree) (frame : Frame) (receiver : Value) :
    List Tree → Run Value
  | [] => pure receiver
  | step :: steps => do
    evalStepsInside running frame (← evalStepInside running frame receiver step) steps
termination_by structural ts => ts

def evalStepInside (running : List Tree) (frame : Frame) (receiver : Value) : Tree → Run Value
  | .leaf _ _ => Run.defect .missingPart
  | .node label _ children => evalStepPartsInside running frame receiver label children
termination_by structural t => t

def evalStepPartsInside (running : List Tree) (frame : Frame) (receiver : Value) :
    Label → List Tree → Run Value
  | .field, name :: _ =>
    Run.inside running (readField (call running) frame receiver name.written)
  | .method, [name, args] => do
    let vs ← evalArgsInside running frame args
    Run.inside running (callMember (call running) frame receiver name.written vs)
  | .method, _ => Run.defect .wrongValue
  | .index, i :: _ => do
    let v ← evalInside running frame i
    Run.inside running (receiver.index v)
  | .call, args :: _ => do
    let vs ← evalArgsInside running frame args
    Run.inside running (callValue (call running) receiver vs)
  | .field, [] | .index, [] | .call, [] => Run.defect .missingIndex
  | label, _ => Run.inside running (Run.raise (.unknownStep label.text))
termination_by structural _ ts => ts

def evalArgsInside (running : List Tree) (frame : Frame) : Tree → Run (List Value)
  | .leaf _ _ => pure []
  | .node _ _ children => evalAllInside running frame children
termination_by structural t => t

end

end

/-- Calls within running evaluations. Bodies and callbacks are evaluated within them as well. -/
def callInside : Nat → List Tree → Caller
  | 0 => fun _ _ _ _ => throw .unfinished
  | depth + 1 => fun running context callee args =>
    match callee with
    | .lambda _ f =>
      Run.withScope context.scope
        (evalInside (callInside depth) running
          ⟨Frame.bind f.params args, context.scope, context.host⟩ f.body)
    | .closure _ params body locals scope host =>
      Run.withScope scope
        (evalInside (callInside depth) running
          ⟨Frame.bind params args ++ locals, scope, host⟩ body)
    | .bound _ function receiver => callInside depth running .plain function (receiver :: args)
    | .builtin f =>
      Run.inside running (f.apply (Items.runCallback (callInside depth running)) depth args)
    | .method _ receiver method =>
      Run.inside running (method.apply (callInside depth running) receiver args)
    | _ => Run.defect .wrongKind

theorem Stop.located_located (stop : Stop) (inner outer : Option Position) :
    (stop.located inner).located outer = stop.located (inner.or outer) := by
  cases stop with
  | unfinished => rfl
  | fault f =>
      cases f with
      | evaluation issue place => cases place <;> cases inner <;> rfl
      | _ => rfl

namespace Run

variable {α β : Type} {running : List Tree} {act : Run α} {m n : Machine}

theorem inside_of_ok {a : α} (h : act m = .ok a n) (running : List Tree) :
    inside running act m = .ok a n := by
  simp only [inside, h]

theorem inside_of_error {stop : Stop} (h : act m = .error stop n) (running : List Tree) :
    inside running act m = .error (stop.located (innermostPlace? running)) n := by
  simp only [inside, h]
  cases stop with
  | unfinished => rfl
  | fault f =>
      cases f with
      | evaluation issue place => cases place <;> rfl
      | _ => rfl

theorem inside_eq_located (running : List Tree) (act : Run α) :
    inside running act = located (innermostPlace? running) act := by
  funext m
  simp only [located, mapStop]
  cases h : act m with
  | ok a n => exact inside_of_ok h running
  | error stop n => exact inside_of_error h running

theorem located_located (inner outer : Option Position) (act : Run α) :
    located outer (located inner act) = located (inner.or outer) act := by
  funext m
  simp only [located, mapStop]
  cases act m with
  | ok a n => rfl
  | error stop n => exact congrArg (EStateM.Result.error · n) (stop.located_located inner outer)

theorem inside_nil (act : Run α) : inside [] act = act := by
  funext m
  simp only [inside, innermostPlace?, List.findSome?_nil]
  split
  next h => exact h.symm
  next => rfl

theorem inside_cons (t : Tree) (running : List Tree) (act : Run α) :
    inside (t :: running) act = inside running (located t.place? act) := by
  rw [inside_eq_located, inside_eq_located, located_located, innermostPlace?, List.findSome?_cons,
    innermostPlace?]
  cases t.place? <;> rfl

theorem inside_cons_leaf (kind : LeafKind) (text : String) (running : List Tree) (act : Run α) :
    inside (.leaf kind text :: running) act = inside running act := rfl

theorem inside_inside (running : List Tree) (act : Run α) :
    inside running (inside running act) = inside running act := by
  rw [inside_eq_located, inside_eq_located, located_located, Option.or_self]

theorem bind_inside (running : List Tree) (act : Run α) (f : α → Run β) :
    inside running (act >>= f) = inside running act >>= fun a => inside running (f a) := by
  funext m
  cases h : act m with
  | ok a n =>
      rw [bind_of_ok (inside_of_ok h running)]
      simp only [inside, bind_of_ok h]
  | error stop n =>
      rw [bind_of_error (inside_of_error h running), inside_of_error (bind_of_error h f)]

theorem inside_bind {act' : Run α} {f f' : α → Run β} (h : act' = inside running act)
    (hf : ∀ a, f' a = inside running (f a)) : (act' >>= f') = inside running (act >>= f) := by
  rw [bind_inside, h, funext hf]

theorem inside_withScope (running : List Tree) (scope : Option Ref) (act : Run α) :
    inside running (withScope scope act) = withScope scope (inside running act) := by
  simp only [inside_eq_located]
  funext m
  simp only [located, mapStop, withScope]
  cases act { m with scope } <;> rfl

theorem inside_ne_unplaced {p : Position} (hplace : innermostPlace? running = some p)
    (act : Run α) (issue : EvalIssue) (m n : Machine) :
    inside running act m ≠ .error (.fault (.evaluation issue none)) n := by
  intro h
  simp only [inside, hplace] at h
  split at h
  next => cases h
  next hne => exact hne _ _ h

def placing (running : List Tree) : Stepwise where
  rel act other := inside running act = inside running other
  tame _ := rfl
  bind h hf := by rw [bind_inside, bind_inside, h, funext hf]

theorem placing_keepsScopes (running : List Tree) : (placing running).KeepsScopes := by
  intro α scope act other h
  change inside running (withScope scope act) = inside running (withScope scope other)
  rw [inside_withScope, inside_withScope, show inside running act = inside running other from h]

theorem placing_asks (running : List Tree) (host : Option Host) : (placing running).Asks host :=
  Stepwise.asks rfl (fun _ => Stepwise.searches (fun _ => rfl) rfl) host

theorem placing_compiles {call other : Caller} (h : (placing running).Calls call other) :
    (placing running).Compiles call other :=
  Stepwise.compiles (fun _ _ _ => rfl) h

/-- What the one caller does within the running evaluations, the other does, and places it there. -/
def CallsInside (inner : List Tree → Caller) (call : Caller) : Prop :=
  ∀ running context callee args,
    inner running context callee args = inside running (call context callee args)

theorem CallsInside.placing {inner : List Tree → Caller} {call : Caller}
    (h : CallsInside inner call) (running : List Tree) :
    (Run.placing running).Calls (inner running) call := by
  intro context callee args
  change inside running (inner running context callee args) = _
  rw [h, inside_inside]

end Run

open Run

theorem operandsInside_eq {running : List Tree} {left left' right right' : Run Value} (op : Tree)
    (apply : String → Value → Value → Act Value) (hleft : left' = inside running left)
    (hright : right' = inside running right) :
    (do
      let op ← inside running (operatorText op)
      let a ← left'
      let b ← right'
      inside running (apply op a b) : Run Value) =
    inside running (do
      let op ← operatorText op
      let a ← left
      let b ← right
      apply op a b) :=
  inside_bind rfl fun _ => inside_bind hleft fun _ => inside_bind hright fun _ => rfl

section

variable {inner : List Tree → Caller} {call : Caller}

mutual

theorem evalInside_eq (h : CallsInside inner call) (running : List Tree) (frame : Frame)
    (t : Tree) :
    evalInside inner running frame t = inside running (eval call frame t) := by
  cases t with
  | leaf kind text => rw [evalInside, eval, inside_cons_leaf]
  | node label place cs =>
      -- The place of the node is the one around its children, unless a child has one.
      have hplace (act : Run Value) :
          inside running (located place act) = inside (.node label place cs :: running) act :=
        (inside_cons (.node label place cs) running act).symm
      have hchild (c : Tree) (_ : c ∈ cs) :=
        evalInside_eq h (.node label place cs :: running) frame c
      cases label with
      | ternary =>
          rcases cs with _ | ⟨c, _ | ⟨y, _ | ⟨n, _ | _⟩⟩⟩
          case cons.cons.cons.nil =>
            rw [evalInside, eval, hplace]
            refine inside_bind (hchild c (by simp)) fun v => inside_bind rfl fun heap => ?_
            cases heap.truthy v with
            | true => exact hchild y (by simp)
            | false => exact hchild n (by simp)
          all_goals exact (hplace (raise .malformedTernary)).symm
      | nullish =>
          rcases cs with _ | ⟨l, _ | ⟨r, _ | _⟩⟩
          case cons.cons.nil =>
            rw [evalInside, eval, hplace]
            refine inside_bind (hchild l (by simp)) fun v => ?_
            cases v with
            | null => exact hchild r (by simp)
            | _ => rfl
          all_goals rfl
      | or =>
          rcases cs with _ | ⟨l, _ | ⟨r, _ | _⟩⟩
          case cons.cons.nil =>
            rw [evalInside, eval, hplace]
            refine inside_bind (hchild l (by simp)) fun v => inside_bind rfl fun heap => ?_
            cases heap.truthy v with
            | true => rfl
            | false => exact hchild r (by simp)
          all_goals rfl
      | and =>
          rcases cs with _ | ⟨l, _ | ⟨r, _ | _⟩⟩
          case cons.cons.nil =>
            rw [evalInside, eval, hplace]
            refine inside_bind (hchild l (by simp)) fun v => inside_bind rfl fun heap => ?_
            cases heap.truthy v with
            | true => exact hchild r (by simp)
            | false => rfl
          all_goals rfl
      | compare | add | mul | pow =>
          rcases cs with _ | ⟨l, _ | ⟨op, _ | ⟨r, _ | _⟩⟩⟩
          case cons.cons.cons.nil =>
            rw [evalInside, eval, hplace]
            exact operandsInside_eq op _ (hchild l (by simp)) (hchild r (by simp))
          all_goals rfl
      | unary =>
          rcases cs with _ | ⟨op, _ | ⟨t, _ | _⟩⟩
          case cons.cons.nil =>
            rw [evalInside, eval, hplace]
            exact inside_bind rfl fun op => inside_bind (hchild t (by simp)) fun v => rfl
          all_goals rfl
      | chain =>
          cases cs with
          | nil => rfl
          | cons head steps =>
              rw [evalInside, eval, hplace]
              exact inside_bind (hchild head (by simp)) fun v =>
                evalStepsInside_eq h _ frame v steps
      | array =>
          rw [evalInside, eval, hplace]
          exact inside_bind (evalAllInside_eq h _ frame cs) fun vs => rfl
      | arrow =>
          rcases cs with _ | ⟨params, _ | ⟨body, _ | _⟩⟩
          case cons.cons.nil => exact (hplace _).symm
          all_goals rfl
      | _ =>
          simp only [evalInside, eval, hplace]
          rfl
termination_by sizeOf t

theorem evalAllInside_eq (h : CallsInside inner call) (running : List Tree) (frame : Frame)
    (ts : List Tree) :
    evalAllInside inner running frame ts = inside running (evalAll call frame ts) := by
  cases ts with
  | nil => rfl
  | cons t ts =>
      simp only [evalAllInside, evalAll]
      exact inside_bind (evalInside_eq h running frame t) fun v =>
        inside_bind (evalAllInside_eq h running frame ts) fun vs => rfl
termination_by sizeOf ts

theorem evalStepsInside_eq (h : CallsInside inner call) (running : List Tree) (frame : Frame)
    (receiver : Value) (steps : List Tree) :
    evalStepsInside inner running frame receiver steps =
      inside running (evalSteps call frame receiver steps) := by
  cases steps with
  | nil => rfl
  | cons step steps =>
      simp only [evalStepsInside, evalSteps]
      exact inside_bind (evalStepInside_eq h running frame receiver step) fun v =>
        evalStepsInside_eq h running frame v steps
termination_by sizeOf steps

theorem evalStepInside_eq (h : CallsInside inner call) (running : List Tree) (frame : Frame)
    (receiver : Value) (step : Tree) :
    evalStepInside inner running frame receiver step =
      inside running (evalStep call frame receiver step) := by
  cases step with
  | leaf kind text => rfl
  | node label place cs =>
      have hcalls := h.placing running
      have hasks : (placing running).Asks frame.host := placing_asks _ _
      cases label with
      | field =>
          cases cs with
          | nil => rfl
          | cons name rest =>
              exact Stepwise.bind _ (requireMember_rel hcalls hasks _ _) fun member => rfl
      | method =>
          rcases cs with _ | ⟨name, _ | ⟨args, _ | _⟩⟩
          case cons.cons.nil =>
            exact inside_bind (evalArgsInside_eq h running frame args) fun vs =>
              callMember_rel hcalls hasks _ _ _
          all_goals rfl
      | index =>
          cases cs with
          | nil => rfl
          | cons i rest => exact inside_bind (evalInside_eq h running frame i) fun v => rfl
      | call =>
          cases cs with
          | nil => rfl
          | cons args rest =>
              exact inside_bind (evalArgsInside_eq h running frame args) fun vs =>
                callValue_rel hcalls _ _
      | _ =>
          simp only [evalStepInside, evalStep, evalStepParts, evalStepPartsInside]
termination_by sizeOf step

theorem evalArgsInside_eq (h : CallsInside inner call) (running : List Tree) (frame : Frame)
    (t : Tree) :
    evalArgsInside inner running frame t = inside running (evalArgs call frame t) := by
  cases t with
  | leaf kind text => rfl
  | node label place cs =>
      simp only [evalArgsInside, evalArgs]
      exact evalAllInside_eq h running frame cs
termination_by sizeOf t

end

end

theorem callInside_eq (depth : Nat) : CallsInside (callInside depth) (call depth) := by
  induction depth with
  | zero => exact fun running context callee args => rfl
  | succ depth ih =>
      intro running context callee args
      have hbody (scope : Option Ref) (frame : Frame) (body : Tree) :
          withScope scope (evalInside (callInside depth) running frame body) =
            inside running (withScope scope (eval (call depth) frame body)) := by
        rw [evalInside_eq ih, inside_withScope]
      -- The library makes the calls and the callbacks; what it refuses by itself is placed as well.
      have hcalls := ih.placing running
      cases callee with
      | lambda id f => exact hbody _ _ _
      | closure id params body locals scope host => exact hbody _ _ _
      | bound id function receiver => exact ih _ _ _ _
      | builtin f =>
          have hrun (callback item : Value) (args : List Value) :
              (placing running).rel
                (Items.runCallback (callInside depth running) callback item args)
                (Items.runCallback (call depth) callback item args) :=
            Stepwise.bind _ rfl fun scope =>
              invoke_rel (placing_keepsScopes _) hcalls (placing_compiles hcalls) _ _ _ _
                (placing_asks _ _)
          exact Builtin.apply_rel hrun depth f args
      | method id receiver method => exact Method.apply_rel hcalls _ _ _
      | _ => rfl

theorem Derives.node_notMem {attached : Bool} {s : Symbol} {ts : List Token} {out : List Tree}
    (h : Derives attached s ts out) (label : Label) (cs : List Tree) :
    .node label none cs ∉ out := by
  induction h with
  | unconditional _ ih | operand _ ih | base _ ih | unsigned _ ih | bare _ ih
  | parenthesized _ _ _ ih | lastItem _ ih => exact ih
  | joined _ hjoins => cases hjoins <;> simp
  | item _ _ _ iht ihrest =>
      intro hmem
      rcases List.mem_cons.mp hmem with rfl | hrest
      · exact iht (.head _)
      · exact ihrest hrest
  | field _ _ _ _ ih | method _ _ _ _ _ _ _ ih | index _ _ _ _ _ ih | call _ _ _ _ _ ih =>
      simpa using ih
  | _ => simp

theorem place?_of_ofTokens {ts : List Token} {label : Label} {place : Option Position}
    {cs : List Tree} (h : Tree.ofTokens ts = .ok (.node label place cs)) : place.isSome = true := by
  obtain ⟨_, ⟨_, -, d⟩, -⟩ := Parser.reads_of_ofTokens h
  cases place with
  | none => exact absurd (List.mem_singleton_self _) (d.node_notMem label cs)
  | some p => rfl

theorem located_eval (call : Caller) (frame : Frame) (t : Tree) :
    located t.place? (eval call frame t) = eval call frame t := by
  cases t with
  | leaf kind text => exact (inside_eq_located [] _).symm.trans (inside_nil _)
  | node label place cs =>
      unfold eval
      rw [Tree.place?, located_located, Option.or_self]

theorem place?_eq_none_of_inside {α : Type} {running : List Tree} {act : Run α} {m n : Machine}
    {issue : EvalIssue} (h : inside running act m = .error (.fault (.evaluation issue none)) n) :
    ∀ t ∈ running, t.place? = none := by
  cases hplace : innermostPlace? running with
  | none => exact List.findSome?_eq_none_iff.mp hplace
  | some p => exact absurd h (inside_ne_unplaced hplace act issue m n)

/-- Errors that are placed on the way out have the place of the innermost evaluation running that
has one: evaluation is the same as the one that is told which evaluations are running, also in the
bodies and callbacks that calls lead to. Only where none of them has a place is there an error
without one, and a node that has been parsed has one. -/
theorem eval_places (depth : Nat) (frame : Frame) :
    (∀ t, eval (call depth) frame t = evalInside (callInside depth) [] frame t) ∧
      CallsInside (callInside depth) (call depth) ∧
      (∀ running t, inside running (eval (call depth) frame t) =
        evalInside (callInside depth) running frame t) ∧
      (∀ running t m issue n, evalInside (callInside depth) running frame t m =
          .error (.fault (.evaluation issue none)) n → ∀ u ∈ t :: running, u.place? = none) ∧
      ∀ ts label place cs, Tree.ofTokens ts = .ok (.node label place cs) → ∀ m issue n,
        eval (call depth) frame (.node label place cs) m ≠
          .error (.fault (.evaluation issue none)) n := by
  have hinside (running : List Tree) (t : Tree) :
      evalInside (callInside depth) running frame t = inside running (eval (call depth) frame t) :=
    evalInside_eq (callInside_eq depth) running frame t
  have houter (t : Tree) :
      eval (call depth) frame t = evalInside (callInside depth) [] frame t := by
    rw [hinside, inside_nil]
  have hnone (running : List Tree) (t : Tree) (m : Machine) (issue : EvalIssue) (n : Machine)
      (h : evalInside (callInside depth) running frame t m =
        .error (.fault (.evaluation issue none)) n) : ∀ u ∈ t :: running, u.place? = none := by
    rw [hinside, ← located_eval, ← inside_cons] at h
    exact place?_eq_none_of_inside h
  refine ⟨houter, callInside_eq depth, fun running t => (hinside running t).symm, hnone, ?_⟩
  intro ts label place cs ht m issue n h
  rw [houter] at h
  obtain rfl : place = none := hnone _ _ _ _ _ h _ (.head _)
  exact absurd (place?_of_ofTokens ht) nofun

/-- A variable by itself has no place, and the sum of two has. -/
theorem eval_places_sum :
    let ts : List Token := [⟨.ident, "x", ⟨1, 1⟩⟩, ⟨.plus, "+", ⟨1, 3⟩⟩, ⟨.ident, "y", ⟨1, 5⟩⟩,
      .stop ⟨1, 6⟩]
    let t : Tree := .node .add (some ⟨1, 1⟩) [.leaf .ident "x", .leaf .op "+", .leaf .ident "y"]
    (evalInside (callInside 1) [] ⟨[], none, none⟩ (.leaf .ident "x") .initial =
        .error (.fault (.evaluation (.unresolvedName "x") none)) .initial ∧
      ∀ u ∈ [(.leaf .ident "x" : Tree)], u.place? = none) ∧
    Tree.ofTokens ts = .ok t ∧
      ∀ m issue n, eval (call 1) ⟨[], none, none⟩ t m ≠
        .error (.fault (.evaluation issue none)) n := by
  intro ts t
  have hx : evalInside (callInside 1) [] ⟨[], none, none⟩ (.leaf .ident "x") .initial =
      .error (.fault (.evaluation (.unresolvedName "x") none)) .initial := rfl
  obtain ⟨-, -, -, hnone, hparsed⟩ := eval_places 1 ⟨[], none, none⟩
  exact ⟨⟨hx, hnone _ _ _ _ _ hx⟩, rfl, hparsed ts _ _ _ rfl⟩

end StringLambda
