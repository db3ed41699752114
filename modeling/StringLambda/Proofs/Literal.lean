import StringLambda.Literal
import StringLambda.Proofs.Refusing

namespace StringLambda

open Run

/-! Texts as values. A text that is an expression has the value of the expression, unless evaluation
refuses it, and any other text stands for itself. Nothing is bound around such a text, so the names
that its expression needs are globals. -/

/-- The variable is read whenever the tree has a value. It does not stand only in an operand that
may be passed over, or in a nested lambda. -/
inductive Tree.Needs (x : String) : Tree → Prop
  | variable : Needs x (.leaf .ident x)
  | condition {place c y n} : Needs x c → Needs x (.node .ternary place [c, y, n])
  | left {label place l r} : label = .nullish ∨ label = .or ∨ label = .and → Needs x l →
      Needs x (.node label place [l, r])
  | leftOperand {label place l op r} : label = .compare ∨ label = .add ∨ label = .mul ∨
      label = .pow → Needs x l → Needs x (.node label place [l, op, r])
  | rightOperand {label place l op r} : label = .compare ∨ label = .add ∨ label = .mul ∨
      label = .pow → Needs x r → Needs x (.node label place [l, op, r])
  | signed {place op t} : Needs x t → Needs x (.node .unary place [op, t])
  | element {place ts t} : t ∈ ts → Needs x t → Needs x (.node .array place ts)
  | head {place h steps} : Needs x h → Needs x (.node .chain place (h :: steps))
  | index {place h steps p i rest} : .node .index p (i :: rest) ∈ steps → Needs x i →
      Needs x (.node .chain place (h :: steps))
  | methodArgument {place h steps p name q args t} :
      .node .method p [name, .node .args q args] ∈ steps → t ∈ args → Needs x t →
      Needs x (.node .chain place (h :: steps))
  | callArgument {place h steps p q args rest t} :
      .node .call p (.node .args q args :: rest) ∈ steps → t ∈ args → Needs x t →
      Needs x (.node .chain place (h :: steps))

namespace Tree

theorem mem_freeNamesOf {x : String} {t : Tree} {ts : List Tree} (ht : t ∈ ts)
    (hx : x ∈ t.freeNames) : x ∈ freeNamesOf ts := by
  induction ht with
  | head ts => exact List.mem_append_left _ hx
  | tail u _ ih => exact List.mem_append_right _ ih

theorem mem_freeNames_of_part {x : String} {label : Label} {place : Option Position} {t : Tree}
    {ts : List Tree} (hlabel : label ≠ .arrow) (ht : t ∈ ts) (hx : x ∈ t.freeNames) :
    x ∈ (node label place ts).freeNames := by
  cases label with
  | arrow => exact absurd rfl hlabel
  | _ => exact mem_freeNamesOf ht hx

theorem Needs.mem_freeNames {x : String} {t : Tree} (h : t.Needs x) : x ∈ t.freeNames := by
  induction h with
  | «variable» => exact List.mem_singleton_self x
  | condition _ ih => exact mem_freeNames_of_part (by decide) (by simp) ih
  | left hlabel _ ih =>
      exact mem_freeNames_of_part (by rcases hlabel with rfl | rfl | rfl <;> decide) (by simp) ih
  | leftOperand hlabel _ ih | rightOperand hlabel _ ih =>
      refine mem_freeNames_of_part ?_ (by simp) ih
      rcases hlabel with rfl | rfl | rfl | rfl <;> decide
  | signed _ ih => exact mem_freeNames_of_part (by decide) (by simp) ih
  | element ht _ ih => exact mem_freeNames_of_part (by decide) ht ih
  | head _ ih => exact mem_freeNames_of_part (by decide) (by simp) ih
  | index hstep _ ih =>
      refine mem_freeNames_of_part (by decide) (.tail _ hstep) ?_
      exact mem_freeNames_of_part (by decide) (.head _) ih
  | methodArgument hstep ht _ ih =>
      refine mem_freeNames_of_part (by decide) (.tail _ hstep) ?_
      refine mem_freeNames_of_part (by decide) (.tail _ (.head _)) ?_
      exact mem_freeNames_of_part (by decide) ht ih
  | callArgument hstep ht _ ih =>
      refine mem_freeNames_of_part (by decide) (.tail _ hstep) ?_
      refine mem_freeNames_of_part (by decide) (.head _) ?_
      exact mem_freeNames_of_part (by decide) ht ih

end Tree

/-- The run gives no value unless the name is a global. -/
def Run.NeedsGlobal (x : String) {α : Type} (act : Run α) : Prop :=
  ∀ m a n, act m = .ok a n → (m.global? x).isSome = true

namespace Run.NeedsGlobal

variable {α β : Type} {x : String} {act : Run α} {f : α → Run β}

theorem bind_left (h : act.NeedsGlobal x) : (act >>= f).NeedsGlobal x := by
  intro m b k hrun
  simp only [Bind.bind, EStateM.bind] at hrun
  cases hact : act m with
  | ok a n => exact h m a n hact
  | error stop n =>
      rw [hact] at hrun
      cases hrun

theorem bind_right (hact : act.KeepsSetting) (h : ∀ a, (f a).NeedsGlobal x) :
    (act >>= f).NeedsGlobal x := by
  intro m b k hrun
  have hkeeps := (hact m).globals
  simp only [Bind.bind, EStateM.bind] at hrun
  cases ha : act m with
  | ok a n =>
      rw [ha] at hrun hkeeps
      have hglobal := h a n b k hrun
      rwa [Machine.global?, show n.globals = m.globals from hkeeps] at hglobal
  | error stop n =>
      rw [ha] at hrun
      cases hrun

theorem located (h : act.NeedsGlobal x) (place : Option Position) :
    (Run.located place act).NeedsGlobal x := by
  intro m a n hrun
  simp only [Run.located, mapStop] at hrun
  cases hact : act m with
  | ok a n => exact h m a n hact
  | error stop n =>
      rw [hact] at hrun
      cases hrun

end Run.NeedsGlobal

section

variable {depth : Nat} {frame : Frame} {x : String}

theorem Frame.get_needsGlobal (hlocals : frame.locals.lookup x = none)
    (hscope : frame.scope = none) :
    (frame.get x).NeedsGlobal x := by
  intro m v n hrun
  cases hx : m.global? x with
  | some v => rfl
  | none =>
      have hentries : Run.ofAct (Frame.scopeEntries none) m = .ok [] m := rfl
      have hglobal : Run.global? x m = .ok none m :=
        congrArg (fun v => EStateM.Result.ok v m) hx
      simp only [Frame.get, hlocals, hscope] at hrun
      cases (hrun.symm.trans (bind_of_ok hentries _)).trans (bind_of_ok hglobal _)

theorem evalAll_needsGlobal {t : Tree} {ts : List Tree} (ht : t ∈ ts)
    (h : (eval (call depth) frame t).NeedsGlobal x) :
    (evalAll (call depth) frame ts).NeedsGlobal x := by
  induction ht with
  | head ts =>
      rw [evalAll]
      exact h.bind_left
  | tail u _ ih =>
      rw [evalAll]
      exact .bind_right (eval_keepsSetting _ _ _) fun v => ih.bind_left

theorem evalSteps_needsGlobal {step : Tree} {steps : List Tree} (hstep : step ∈ steps)
    (h : ∀ v, (evalStep (call depth) frame v step).NeedsGlobal x) (receiver : Value) :
    (evalSteps (call depth) frame receiver steps).NeedsGlobal x := by
  induction hstep generalizing receiver with
  | head steps =>
      rw [evalSteps]
      exact (h receiver).bind_left
  | tail u _ ih =>
      rw [evalSteps]
      exact .bind_right (evalStep_keepsSetting _ _ _ _) fun v => ih v

theorem eval_chain_needsGlobal {step head : Tree} {steps : List Tree} {place : Option Position}
    (hstep : step ∈ steps) (h : ∀ v, (evalStep (call depth) frame v step).NeedsGlobal x) :
    (eval (call depth) frame (.node .chain place (head :: steps))).NeedsGlobal x := by
  rw [eval]
  exact .located (.bind_right (eval_keepsSetting _ _ _) (evalSteps_needsGlobal hstep h)) _

theorem eval_needsGlobal (hlocals : frame.locals.lookup x = none) (hscope : frame.scope = none)
    {t : Tree} (h : t.Needs x) : (eval (call depth) frame t).NeedsGlobal x := by
  -- Evaluation reaches what the tree needs before it has a value, after runs that keep the globals.
  induction h with
  | «variable» => exact Frame.get_needsGlobal hlocals hscope
  | condition _ ih =>
      rw [eval]
      exact .located ih.bind_left _
  | left hlabel _ ih =>
      rcases hlabel with rfl | rfl | rfl <;> rw [eval] <;> exact .located ih.bind_left _
  | leftOperand hlabel _ ih =>
      rcases hlabel with rfl | rfl | rfl | rfl <;> rw [eval] <;>
        exact .located (.bind_right (Plain.lift _).keeps fun op => ih.bind_left) _
  | rightOperand hlabel _ ih =>
      rcases hlabel with rfl | rfl | rfl | rfl <;> rw [eval] <;>
        exact .located (.bind_right (Plain.lift _).keeps fun op =>
          .bind_right (eval_keepsSetting _ _ _) fun v => ih.bind_left) _
  | signed _ ih =>
      rw [eval]
      exact .located (.bind_right (Plain.lift _).keeps fun op => ih.bind_left) _
  | element ht _ ih =>
      rw [eval]
      exact .located (evalAll_needsGlobal ht ih).bind_left _
  | head _ ih =>
      rw [eval]
      exact .located ih.bind_left _
  | index hstep _ ih => exact eval_chain_needsGlobal hstep fun v => ih.bind_left
  | methodArgument hstep ht _ ih | callArgument hstep ht _ ih =>
      exact eval_chain_needsGlobal hstep fun v => (evalAll_needsGlobal ht ih).bind_left

end

def Frame.bare : Frame := ⟨[], none, none⟩

section

variable (depth : Nat) (text : String) (m : Machine)

/-- What a text is read as. -/
inductive Literal.Reads : EStateM.Result Stop Machine Value → Prop
  /-- No expression: the text, and nothing has been run. -/
  | word {e : SourceError} : Tree.ofSource text = .error e → Reads (.ok (.text text) m)
  /-- The value of an expression all of whose needed names are globals. -/
  | value {t : Tree} {v : Value} {n : Machine} : Tree.ofSource text = .ok t →
      eval (call depth) .bare t m = .ok v n → (∀ x, t.Needs x → (m.global? x).isSome = true) →
      SameSetting n m → Reads (.ok v n)
  /-- The text of an expression that evaluation refuses. -/
  | refused {t : Tree} {issue : EvalIssue} {place : Option Position} {n : Machine} :
      Tree.ofSource text = .ok t →
      eval (call depth) .bare t m = .error (.fault (.evaluation issue place)) n →
      SameSetting n m → Reads (.ok (.text text) n)
  /-- An invocation that fails within the expression is not taken as a refusal. -/
  | invocation {t : Tree} {issue : InvocationIssue} {receiver spec : Value} {n : Machine} :
      Tree.ofSource text = .ok t →
      eval (call depth) .bare t m = .error (.fault (.invocation issue receiver spec)) n →
      SameSetting n m → Reads (.error (.fault (.invocation issue receiver spec)) n)
  /-- A failure that the language has no account of, or calls that are nested too deeply. -/
  | failure {t : Tree} {stop : Stop} {n : Machine} : Tree.ofSource text = .ok t →
      eval (call depth) .bare t m = .error stop n → stop.isAccounted = false →
      SameSetting n m → Reads (.error stop n)

/-- The reading that takes a text for more than itself only if it is an expression without free
names, and that never fails. -/
def Literal.ReadsClosed : Prop :=
  ∃ v n, readLiteral depth text m = .ok v n ∧
    ((∃ t, Tree.ofSource text = .ok t ∧ t.freeNames = [] ∧ eval (call depth) .bare t m = .ok v n) ∨
      (v = .text text ∧ ∀ t w k, Tree.ofSource text = .ok t → t.freeNames = [] →
        eval (call depth) .bare t m ≠ .ok w k))

end

section

variable {depth : Nat} {text : String} {m n : Machine} {t : Tree}

theorem readLiteral_of_word {e : SourceError} (h : Tree.ofSource text = .error e) :
    readLiteral depth text m = .ok (.text text) m := by
  unfold readLiteral
  rw [h]
  rfl

theorem readLiteral_of_value {v : Value} (ht : Tree.ofSource text = .ok t)
    (h : eval (call depth) .bare t m = .ok v n) : readLiteral depth text m = .ok v n := by
  simp only [Frame.bare] at h
  simp only [readLiteral, ht, h]

theorem readLiteral_of_fault {f : Fault} (ht : Tree.ofSource text = .ok t)
    (h : eval (call depth) .bare t m = .error (.fault f) n) :
    readLiteral depth text m =
      if f.isOfText then .ok (.text text) n else .error (.fault f) n := by
  simp only [Frame.bare] at h
  simp only [readLiteral, ht, h]

theorem readLiteral_of_unfinished (ht : Tree.ofSource text = .ok t)
    (h : eval (call depth) .bare t m = .error .unfinished n) :
    readLiteral depth text m = .error .unfinished n := by
  simp only [Frame.bare] at h
  simp only [readLiteral, ht, h]

/-- Every text is read as one of these, in any state and with any bound on nested calls. The value
of an expression whose needed names are not all globals is its text, unless it fails before. -/
theorem readLiteral_reads (hm : m.SearchesSoundly) (depth : Nat) (text : String) :
    Literal.Reads depth text m (readLiteral depth text m) := by
  cases ht : Tree.ofSource text with
  | error e =>
      rw [readLiteral_of_word ht]
      exact .word ht
  | ok t =>
      have hkeeps := eval_keepsSetting depth .bare t m
      have hsound := eval_rel (call_sound depth) (sound_asks Frame.bare.host) t
      have hstops := hsound.2.stops m hm
      cases heval : eval (call depth) .bare t m with
      | ok v n =>
          rw [heval] at hkeeps
          rw [readLiteral_of_value ht heval]
          exact .value ht heval (fun x hx => eval_needsGlobal rfl rfl hx m v n heval) hkeeps
      | error stop n =>
          rw [heval] at hkeeps hstops
          cases stop with
          | unfinished =>
              rw [readLiteral_of_unfinished ht heval]
              exact .failure ht heval rfl hkeeps
          | fault f =>
              rw [readLiteral_of_fault ht heval]
              cases f with
              | evaluation issue place => exact .refused ht heval hkeeps
              | invocation issue receiver spec => exact .invocation ht heval hkeeps
              | builtin defect => exact .failure ht heval rfl hkeeps
              | source e => cases hstops
              | compile issue => cases hstops

end

theorem readLiteral_reads_array :
    Machine.initial.SearchesSoundly ∧
      Literal.Reads 1 "[1, 'x']" .initial (readLiteral 1 "[1, 'x']" .initial) := by
  have hm : Machine.initial.SearchesSoundly := fun k search hk => nomatch hk
  exact ⟨hm, readLiteral_reads hm 1 _⟩

/-- The name of a global is read as the global. -/
theorem Literal.not_readsClosed_max : ¬ ReadsClosed callLimit "max" .initial := by
  rintro ⟨v, n, hread, ⟨t, ht, hfree, -⟩ | ⟨rfl, -⟩⟩
  · have hnames : (Tree.ofSource "max").toOption.map Tree.freeNames = some ["max"] := by
      decide +kernel
    rw [ht] at hnames
    exact absurd (hfree.symm.trans (Option.some.inj hnames)) nofun
  · have htext : (match readLiteral callLimit "max" .initial with
        | .ok v _ => v.isText
        | .error _ _ => false) = false := by
      decide +kernel
    rw [hread] at htext
    cases htext

end StringLambda
