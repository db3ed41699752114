import StringLambda.Proofs.Console
import StringLambda.Proofs.Wrapping

namespace StringLambda

/-! The receiver of the console. Lines that are specifications leave it alone. The wrapper around it
chains after a line only if the line is to hold the result of a specification that fails. -/

inductive Line where
  | blank
  | spec (s : String)
  | command (c : Command) (arg : String)
  | unknown (name : String)
deriving DecidableEq

def Line.read (line : String) : Line :=
  let s := Text.trim (Session.visible line)
  if s.isEmpty then .blank
  else if s.toList.head? = some '/' then
    match Command.ofName? (Session.splitCommand s).1 with
    | some c => .command c (Session.splitCommand s).2
    | none => .unknown (Session.splitCommand s).1
  else .spec s

namespace Session

def answer (depth : Nat) : Line → Session Unit
  | .blank => pure ()
  | .spec s => do
    match ← reporting (applyLine depth s) with
    | some text => writeLine text
    | none => return
  | .command c arg => do
    let _ ← reporting (runCommand depth c arg)
  | .unknown name => do
    let _ ← reporting (writeError ("Unknown command: " ++ name))

theorem runLine_eq (depth : Nat) (line : String) :
    runLine depth line = answer depth (.read line) := by
  simp only [runLine, Line.read]
  split
  next => rfl
  next =>
    split
    next =>
      simp only [answerCommand]
      cases Command.ofName? (splitCommand (Text.trim (visible line))).1 <;> rfl
    next => rfl

/-- The terminal after a line, also if the line fails. -/
def after (depth : Nat) (t : Terminal) (line : String) : Terminal :=
  endOf (runLine depth line t)

def afterLines (depth : Nat) (t : Terminal) (lines : List String) : Terminal :=
  lines.foldl (after depth) t

/-- A line that is to hold the result of a specification, where the specification fails. -/
def failsToHold (depth : Nat) (t : Terminal) : Line → Bool
  | .command .apply spec =>
    !spec.isEmpty && (stopOf (thrush depth t.wrapper.held (.text spec) [] none t.machine)).isSome
  | _ => false

/-- Of lines that come one after the other, all that are to hold a result do so. -/
def holdsResults (depth : Nat) : Terminal → List String → Bool
  | _, [] => true
  | t, line :: lines =>
    !failsToHold depth t (.read line) && holdsResults depth (after depth t line) lines

/-- What holds the receiver after a command, if chaining was off before it. -/
def wrapperAfter (depth : Nat) (t : Terminal) : Command → String → Wrapper
  | .receiver, arg =>
    if arg.isEmpty then t.wrapper
    else
      match readLiteral depth arg t.machine with
      | .ok v _ => .wrap v none
      | .error _ _ => t.wrapper
  | .apply, arg =>
    if arg.isEmpty then t.wrapper
    else
      match thrush depth t.wrapper.held (.text arg) [] none t.machine with
      | .ok v _ => .wrap v none
      | .error _ _ => t.wrapper.chain
  | .reset, _ => .wrap .null none
  | _, _ => t.wrapper

section

variable {depth : Nat} {t : Terminal} {v : Value}

theorem wrapper_reporting {α : Type} (act : Session α) (t : Terminal) :
    (endOf (reporting act t)).wrapper = (endOf (act t)).wrapper := by
  cases h : act t with
  | ok a n => rw [reporting_of_ok h]; rfl
  | error stop n =>
      cases hstop : stop.isAccounted with
      | false => rw [reporting_of_failure h hstop]; rfl
      | true =>
          cases stop with
          | fault f => rw [reporting_of_fault h hstop]; rfl
          | unfinished => cases hstop

theorem wrapper_withArgument (c : Command) (arg : String) (act : Session Unit) :
    (endOf (withArgument c arg act t)).wrapper =
      if arg.isEmpty then t.wrapper else (endOf (act t)).wrapper := by
  unfold withArgument
  split <;> rfl

theorem wrapper_ofRun_bind {α β : Type} {act : Run α} {f : α → Session β} :
    (endOf ((ofRun act >>= f) t)).wrapper =
      match act t.machine with
      | .ok a m => (endOf (f a { t with machine := m })).wrapper
      | .error _ _ => t.wrapper := by
  cases h : act t.machine with
  | ok a m => rw [bind_of_ok (ofRun_of_ok h)]
  | error stop m => rw [bind_of_error (ofRun_of_error h)]; rfl

theorem wrapper_keep (h : t.wrapper = .wrap v none) (arg : String) :
    (endOf ((do
      setWrapper (← ofRun ((← get).wrapper.keep depth (.text arg) []))
      writeReceiver) t)).wrapper = t.wrapper := by
  rw [get_bind, wrapper_ofRun_bind, Wrapper.keep_eq, h]
  simp only [Bind.bind, EStateM.bind]
  cases thrush depth (Wrapper.wrap v none).held (.text arg) [] (Wrapper.wrap v none).scope
    t.machine with
  | ok result m => exact wrapper_writeReceiver _
  | error stop m => rfl

theorem wrapper_applyAndHold (h : t.wrapper = .wrap v none) (arg : String) :
    (endOf (applyAndHold depth arg t)).wrapper =
      match thrush depth v (.text arg) [] none t.machine with
      | .ok result _ => .wrap result none
      | .error _ _ => t.wrapper.chain := by
  have hchaining : t.wrapper.chain.chaining = true := rfl
  have hheld : t.wrapper.chain.held = v := by rw [h]; rfl
  have hscope : t.wrapper.chain.scope = none := by rw [h]; rfl
  rw [applyAndHold, get_bind, bind_of_ok (setWrapper_eq _ t), get_bind, wrapper_ofRun_bind,
    Wrapper.apply_of_chaining _ _ _ _ hchaining, hheld, hscope]
  simp only [Bind.bind, EStateM.bind]
  cases thrush depth v (.text arg) [] none t.machine with
  | ok result m => rw [h]; exact wrapper_writeReceiver _
  | error stop m => rfl

theorem wrapper_runCommand (h : t.wrapper = .wrap v none) (c : Command) (arg : String) :
    (endOf (runCommand depth c arg t)).wrapper = wrapperAfter depth t c arg := by
  cases c with
  | receiver =>
      simp only [runCommand, wrapper_withArgument, wrapper_ofRun_bind, wrapperAfter]
      split
      next => rfl
      next =>
        cases readLiteral depth arg t.machine with
        | ok v m => exact wrapper_writeReceiver _
        | error stop m => rfl
  | keep =>
      simp only [runCommand, wrapper_withArgument, wrapperAfter, wrapper_keep h, ite_self]
  | apply =>
      simp only [runCommand, wrapper_withArgument, wrapperAfter, wrapper_applyAndHold h]
      rw [show t.wrapper.held = v by rw [h]; rfl]
  | showReceiver =>
      refine (wrapper_writeReceiver t).trans ?_
      simp only [wrapperAfter, h]
      rfl
  | tree =>
      simp only [runCommand, wrapper_withArgument, showTree, wrapper_ofRun_bind, wrapperAfter]
      split
      next => rfl
      next => cases Run.compile arg [] t.machine <;> rfl
  | cache => rfl
  | clear => rfl
  | trace =>
      simp only [runCommand, setTrace, get_bind]
      cases traceSetting? t.environment.showsTrace arg <;> rfl
  | reset => rfl

/-- What a line comes to whose specification ends in this way: its rendered result, or a report. A
result that cannot be rendered fails the line. -/
def answered (t : Terminal) : EStateM.Result Stop Machine Value → EStateM.Result Stop Terminal Unit
  | .ok v m =>
    match m.heap.render v with
    | .ok s => .ok () { t with machine := m, output := t.output ++ [.line s] }
    | .error d => .error (.fault (.builtin d)) { t with machine := m }
  | .error (.fault f) m =>
    if f.isAccounted then .ok () (withReport { t with machine := m } f)
    else .error (.fault f) { t with machine := m }
  | .error .unfinished m => .error .unfinished { t with machine := m }

theorem applyLine_eq (depth : Nat) (h : t.wrapper = .wrap v none) (spec : String) :
    applyLine depth spec t = (do
      let result ← ofRun (thrush depth v (.text spec) [] none)
      render result) t := by
  obtain ⟨machine, environment, wrapper, output, errors, prompts⟩ := t
  obtain rfl : wrapper = .wrap v none := h
  rw [applyLine, get_bind, Wrapper.apply_of_single _ _ _ _ rfl]
  simp only [Bind.bind, EStateM.bind, ofRun, Wrapper.wrap]
  cases thrush depth v (.text spec) [] none machine <;> rfl

theorem answer_spec (h : t.wrapper = .wrap v none) (spec : String) :
    answer depth (.spec spec) t = answered t (thrush depth v (.text spec) [] none t.machine) := by
  have happly := applyLine_eq depth h spec
  cases hrun : thrush depth v (.text spec) [] none t.machine with
  | ok result m =>
      rw [bind_of_ok (ofRun_of_ok hrun)] at happly
      simp only [answered]
      cases hrender : m.heap.render result with
      | ok s =>
          rw [render_of_ok hrender] at happly
          rw [answer, bind_of_ok (reporting_of_ok happly)]
          rfl
      | error d =>
          rw [render_of_error hrender] at happly
          rw [answer, bind_of_error (reporting_of_failure happly rfl)]
  | error stop m =>
      rw [bind_of_error (ofRun_of_error hrun)] at happly
      cases hstop : stop.isAccounted with
      | false =>
          rw [answer, bind_of_error (reporting_of_failure happly hstop)]
          cases stop with
          | fault f =>
              have hf : f.isAccounted = false := hstop
              simp only [answered, hf, Bool.false_eq_true, if_false]
          | unfinished => rfl
      | true =>
          cases stop with
          | fault f =>
              have hf : f.isAccounted = true := hstop
              rw [answer, bind_of_ok (reporting_of_fault happly hstop)]
              simp only [answered, hf, if_true]
              rfl
          | unfinished => cases hstop

theorem wrapper_answered (t : Terminal) (result : EStateM.Result Stop Machine Value) :
    (endOf (answered t result)).wrapper = t.wrapper := by
  cases result with
  | ok v m =>
      simp only [answered]
      split <;> rfl
  | error stop m =>
      cases stop with
      | fault f =>
          simp only [answered]
          split <;> rfl
      | unfinished => rfl

theorem wrapper_answer_command (t : Terminal) (c : Command) (arg : String) :
    (endOf (answer depth (.command c arg) t)).wrapper =
      (endOf (runCommand depth c arg t)).wrapper := by
  rw [answer, ← wrapper_reporting (runCommand depth c arg) t]
  simp only [Bind.bind, EStateM.bind]
  cases reporting (runCommand depth c arg) t <;> rfl

theorem wrapper_after (h : t.wrapper = .wrap v none) (line : String) :
    (after depth t line).wrapper = match Line.read line with
      | .command c arg => wrapperAfter depth t c arg
      | _ => t.wrapper := by
  rw [after, runLine_eq]
  cases Line.read line with
  | blank => rfl
  | spec s => rw [answer_spec h, wrapper_answered]
  | command c arg =>
      rw [wrapper_answer_command, wrapper_runCommand h]
  | unknown name => rfl

theorem wrapperAfter_rest (h : t.wrapper = .wrap v none) (c : Command) (arg : String) :
    (∃ u, wrapperAfter depth t c arg = .wrap u none) ∧
        failsToHold depth t (.command c arg) = false ∨
      wrapperAfter depth t c arg = t.wrapper.chain ∧
        failsToHold depth t (.command c arg) = true := by
  cases c with
  | apply =>
      simp only [wrapperAfter, failsToHold]
      cases harg : arg.isEmpty with
      | true => exact .inl ⟨⟨v, h⟩, rfl⟩
      | false =>
          cases thrush depth t.wrapper.held (.text arg) [] none t.machine with
          | ok u m => exact .inl ⟨⟨u, rfl⟩, rfl⟩
          | error stop m => exact .inr ⟨rfl, rfl⟩
  | receiver =>
      refine .inl ⟨?_, rfl⟩
      simp only [wrapperAfter]
      split
      next => exact ⟨v, h⟩
      next =>
        split
        next u _ _ => exact ⟨u, rfl⟩
        next => exact ⟨v, h⟩
  | reset => exact .inl ⟨⟨.null, rfl⟩, rfl⟩
  | _ => exact .inl ⟨⟨v, h⟩, rfl⟩

theorem after_rest (depth : Nat) (h : t.wrapper = .wrap v none) (line : String) :
    (∃ u, (after depth t line).wrapper = .wrap u none) ∧ failsToHold depth t (.read line) = false ∨
      (after depth t line).wrapper = t.wrapper.chain ∧
        failsToHold depth t (.read line) = true := by
  rw [wrapper_after h]
  cases Line.read line with
  | command c arg => exact wrapperAfter_rest h c arg
  | _ => exact .inl ⟨⟨v, h⟩, rfl⟩

theorem held_wrapperAfter (t : Terminal) (c : Command) (arg : String)
    (h : (wrapperAfter depth t c arg).held ≠ t.wrapper.held) :
    c = .receiver ∨ c = .reset ∨ c = .apply ∧ failsToHold depth t (.command c arg) = false := by
  cases c with
  | apply =>
      refine .inr (.inr ⟨rfl, ?_⟩)
      simp only [wrapperAfter, failsToHold] at h ⊢
      cases harg : arg.isEmpty with
      | true => rfl
      | false =>
          cases hrun : thrush depth t.wrapper.held (.text arg) [] none t.machine with
          | ok u m => rfl
          | error stop m =>
              rw [harg, hrun] at h
              exact absurd rfl h
  | receiver => exact .inl rfl
  | reset => exact .inr (.inl rfl)
  | _ => exact absurd rfl h

/-- What a line does while the wrapper does not chain. -/
structure Disciplined (depth : Nat) (t : Terminal) (line : String) : Prop where
  single : t.wrapper.chaining = false
  chaining : (after depth t line).wrapper.chaining = failsToHold depth t (.read line)
  blank : Line.read line = .blank → runLine depth line t = .ok () t
  spec : ∀ s, Line.read line = .spec s →
    (after depth t line).wrapper = t.wrapper ∧
      runLine depth line t = answered t (thrush depth t.wrapper.held (.text s) [] none t.machine)
  held : (after depth t line).wrapper.held ≠ t.wrapper.held →
    ∃ c arg, Line.read line = .command c arg ∧
      (c = .receiver ∨ c = .reset ∨ c = .apply ∧ failsToHold depth t (.read line) = false)

theorem disciplined_of_rest (h : t.wrapper = .wrap v none) (line : String) :
    Disciplined depth t line where
  single := by
    rw [h]
    rfl
  chaining := by
    obtain ⟨⟨u, hafter⟩, hline⟩ | ⟨hafter, hline⟩ := after_rest depth h line <;>
      rw [hafter, hline] <;> rfl
  blank hblank := by
    rw [runLine_eq, hblank]
    rfl
  spec s hspec := by
    have hheld : t.wrapper.held = v := by rw [h]; rfl
    exact ⟨by rw [wrapper_after h, hspec], by rw [runLine_eq, hspec, answer_spec h, hheld]⟩
  held hchange := by
    rw [wrapper_after h] at hchange
    cases hread : Line.read line with
    | command c arg =>
        rw [hread] at hchange
        exact ⟨c, arg, rfl, held_wrapperAfter t c arg hchange⟩
    | _ =>
        rw [hread] at hchange
        exact absurd rfl hchange

theorem afterLines_cons (t : Terminal) (line : String) (lines : List String) :
    afterLines depth t (line :: lines) = afterLines depth (after depth t line) lines := by
  rw [afterLines, List.foldl_cons, afterLines]

theorem afterLines_rest (h : t.wrapper = .wrap v none) (lines : List String)
    (hlines : holdsResults depth t lines = true) :
    ∃ u, (afterLines depth t lines).wrapper = .wrap u none := by
  induction lines generalizing t v with
  | nil => exact ⟨v, h⟩
  | cons line lines ih =>
      rw [holdsResults, Bool.and_eq_true, Bool.not_eq_true'] at hlines
      obtain ⟨⟨u, hu⟩, -⟩ | ⟨-, hfails⟩ := after_rest depth h line
      · rw [afterLines_cons]
        exact ih hu hlines.2
      · exact absurd (hfails.symm.trans hlines.1) (by decide)

end

/-- As long as no line fails to hold a result, the wrapper does not chain before the next line, and
chains after it only if that line fails to hold one. If it is a specification, it comes to what the
specification comes to on the held value, which stays; what is held changes only when a receiver is
given, a result is held or the console is reset. -/
theorem receiver_discipline (depth : Nat) (t : Terminal) (v : Value) (lines : List String)
    (line : String) (hfresh : t.wrapper = .wrap v none)
    (hlines : holdsResults depth t lines = true) :
    Disciplined depth (afterLines depth t lines) line := by
  obtain ⟨w, hw⟩ := afterLines_rest hfresh lines hlines
  exact disciplined_of_rest hw line

/-- A held result, and a specification on it. -/
theorem receiver_discipline_length :
    Disciplined 9
      (afterLines 9 (.start []) ["/recv [[1, 2], [3]]", "/t x -> x.map('length')"]) "length" := by
  have hlines : holdsResults 9 (.start []) ["/recv [[1, 2], [3]]", "/t x -> x.map('length')"] =
      true := by
    decide +kernel
  exact receiver_discipline 9 (.start []) .null _ "length" rfl hlines

/-- A line that fails to hold a result returns and leaves chaining on, and what is held then gives
way to the result of a specification. -/
theorem chaining_of_failed_apply :
    let t := afterLines 9 (.start []) ["/recv [1, 2, 3]"]
    let u := after 9 t "/t x ->"
    (stopOf (runLine 9 "/t x ->" t)).isNone = true ∧ u.wrapper.chaining = true ∧
      Line.read "length" = .spec "length" ∧ (stopOf (runLine 9 "length" u)).isNone = true ∧
      (after 9 u "length").wrapper.held ≠ u.wrapper.held := by
  refine ⟨by decide +kernel, by decide +kernel, by decide, by decide +kernel, fun hsame => ?_⟩
  have hlength : (after 9 (after 9 (afterLines 9 (.start []) ["/recv [1, 2, 3]"]) "/t x ->")
      "length").wrapper.held.integer? = some 3 := by decide +kernel
  rw [hsame] at hlength
  exact absurd hlength (by decide +kernel)

end Session

end StringLambda
