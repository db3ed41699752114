import StringLambda.Console.CommandLine
import StringLambda.Console.Interactive
import StringLambda.Proofs.Console

namespace StringLambda

/-! Where faults end. The interactive console reports every fault that the language accounts for.
The command line reports those of the application, and lets pass the invocations that fail while the
values are read. -/

namespace Session

abbrev Contains {α : Type} (act : Session α) : Prop :=
  Avoids Stop.isAccounted act

variable {α : Type}

theorem contains_writeLine (s : String) : Contains (writeLine s) := fun _ => rfl

theorem contains_reporting (act : Session α) : Contains (reporting act) := by
  intro t
  cases h : act t with
  | ok a n => rw [reporting_of_ok h]; rfl
  | error stop n =>
      cases hstop : stop.isAccounted with
      | false =>
          rw [reporting_of_failure h hstop]
          exact hstop
      | true =>
          cases stop with
          | fault f => rw [reporting_of_fault h hstop]; rfl
          | unfinished => cases hstop

theorem contains_runLine (depth : Nat) (line : String) : Contains (runLine depth line) := by
  simp only [runLine]
  split
  next => exact .pure ()
  next =>
    split
    next => exact .bind (contains_reporting _) fun _ => .pure ()
    next =>
      refine .bind (contains_reporting _) fun text => ?_
      cases text with
      | none => exact .pure ()
      | some text => exact contains_writeLine text

theorem contains_render (v : Value) : Contains (render v) := by
  intro t
  cases h : t.machine.heap.render v with
  | ok s => rw [render_of_ok h]; rfl
  | error d => rw [render_of_error h]; rfl

theorem contains_showPrompt : Contains showPrompt :=
  .bind (fun _ => rfl) fun v => .bind (contains_render v) fun _ _ => rfl

theorem contains_answerLines (depth : Nat) (lines : List (Option String)) :
    Contains (answerLines depth lines) := by
  induction lines with
  | nil => exact .bind contains_showPrompt fun _ => contains_writeLine ""
  | cons line lines ih =>
      refine .bind contains_showPrompt fun _ => ?_
      cases line with
      | none => exact .bind (contains_writeLine _) fun _ => ih
      | some text => exact .bind (contains_runLine depth text) fun _ => ih

theorem contains_interact (depth : Nat) (lines : List (Option String)) :
    Contains (interact depth lines) :=
  .bind (contains_writeLine banner) fun _ => contains_answerLines depth lines

end Session

theorem isOfText_of_readLiteral {depth : Nat} {text : String} {f : Fault} {m n : Machine}
    (h : readLiteral depth text m = .error (.fault f) n) : f.isOfText = false := by
  cases hsource : Tree.ofSource text with
  | error e =>
      rw [readLiteral, hsource] at h
      cases h
  | ok tree =>
      rw [readLiteral, hsource] at h
      cases heval : eval (call depth) ⟨[], none, none⟩ tree m with
      | ok v k =>
          simp only [heval] at h
          cases h
      | error stop k =>
          cases stop with
          | unfinished =>
              simp only [heval] at h
              cases h
          | fault g =>
              simp only [heval] at h
              split at h
              next => cases h
              next hg =>
                cases h
                exact Bool.eq_false_iff.mpr hg

namespace CommandLine

theorem isOfText_of_readLiterals {depth : Nat} {f : Fault} {n : Machine} (texts : List String)
    (m : Machine) (h : readLiterals depth texts m = .error (.fault f) n) : f.isOfText = false := by
  induction texts generalizing m with
  | nil => cases h
  | cons text texts ih =>
      simp only [readLiterals, Bind.bind, EStateM.bind] at h
      cases hfirst : readLiteral depth text m with
      | error stop k =>
          rw [hfirst] at h
          cases h
          exact isOfText_of_readLiteral hfirst
      | ok v k =>
          rw [hfirst] at h
          simp only at h
          cases hrest : readLiterals depth texts k with
          | error stop l =>
              rw [hrest] at h
              cases h
              exact ih k hrest
          | ok vs l =>
              rw [hrest] at h
              cases h

/-- The arguments ask for a specification on the values that texts stand for. -/
def Asks (t : Terminal) (args : List String) (keep : Bool) (spec : String) (texts : List String) :
    Prop :=
  ∃ name level, readArguments false none args = .ok ⟨keep, name, spec :: texts⟩ ∧
    LogLevel.resolve t.environment name = .ok level

/-- The ways in which a call ends: with a usage, a refusal, the interactive console, a result or a
report, or else with a failure. -/
inductive Ends (depth : Nat) (args : List String) (t : Terminal) :
    EStateM.Result Stop Terminal Ending → Prop
  | usage (h : readArguments false none args = .error (.status 0)) :
      Ends depth args t (.ok (.status 0) { t with output := t.output ++ [.line usage] })
  | flag {message : String} (h : readArguments false none args = .error (.refused message)) :
      Ends depth args t (.ok (.refused message) t)
  | level {request : Request} {name : String} (h : readArguments false none args = .ok request)
      (hlevel : LogLevel.resolve t.environment request.logLevel = .error name) :
      Ends depth args t (.ok (.refused (LogLevel.refusal name)) t)
  | interactive {keep : Bool} {name : Option String}
      (h : readArguments false none args = .ok ⟨keep, name, []⟩) :
      Ends depth args t (.ok .interactive t)
  | result {keep : Bool} {spec : String} {texts : List String} {values : List Value} {v : Value}
      {s : String} {m n : Machine} (h : Asks t args keep spec texts)
      (hread : readLiterals depth texts t.machine = .ok values m)
      (happly : applySpec depth keep (.text spec) (values.headD .null) values.tail m = .ok v n)
      (hrender : n.heap.render v = .ok s) :
      Ends depth args t (.ok (.status 0)
        { t with machine := n, output := t.output ++ [.line s] })
  | report {keep : Bool} {spec : String} {texts : List String} {values : List Value} {f : Fault}
      {m n : Machine} (h : Asks t args keep spec texts)
      (hread : readLiterals depth texts t.machine = .ok values m)
      (happly : applySpec depth keep (.text spec) (values.headD .null) values.tail m =
        .error (.fault f) n)
      (hf : f.isAccounted = true) :
      Ends depth args t (.ok (.status 1) (Session.withReport { t with machine := n } f))
  | failure {stop : Stop} {n : Terminal} (h : stop.isAccounted = false) :
      Ends depth args t (.error stop n)
  | value {keep : Bool} {spec : String} {texts : List String} {issue : InvocationIssue}
      {receiver applied : Value} {m : Machine} (h : Asks t args keep spec texts)
      (hread : readLiterals depth texts t.machine =
        .error (.fault (.invocation issue receiver applied)) m) :
      Ends depth args t
        (.error (.fault (.invocation issue receiver applied)) { t with machine := m })

theorem readArguments_error (keep : Bool) (level : Option String) (args : List String)
    (ending : Ending) (h : readArguments keep level args = .error ending) :
    ending = .status 0 ∨ ending = .refused (logLevelFlag ++ " flag requires a level") := by
  fun_induction readArguments keep level args with
  | case1 => cases h
  | case2 _ _ _ _ _ ih => exact ih h
  | case3 _ _ _ _ _ _ _ ih => exact ih h
  | case4 =>
      cases h
      exact .inr rfl
  | case5 _ _ _ _ _ _ _ _ ih => exact ih h
  | case6 =>
      cases h
      exact .inl rfl
  | case7 => cases h

section

variable {depth : Nat} {t : Terminal} {keep : Bool} {spec : String} {texts : List String}
  {stop : Stop} {m : Machine}

theorem applyTexts_of_ok {values : List Value}
    (h : readLiterals depth texts t.machine = .ok values m) :
    applyTexts depth keep spec texts t = (do
      match ← Session.reporting (Session.ofRun
        (applySpec depth keep (.text spec) (values.headD .null) values.tail)) with
      | none => return .status 1
      | some v =>
        Session.writeLine (← Session.render v)
        return .status 0 : Session Ending) { t with machine := m } := by
  simp only [applyTexts, Bind.bind, EStateM.bind, Session.ofRun, h]
  cases values <;> rfl

theorem applyTexts_of_error (h : readLiterals depth texts t.machine = .error stop m) :
    applyTexts depth keep spec texts t = .error stop { t with machine := m } := by
  simp only [applyTexts, Bind.bind, EStateM.bind, Session.ofRun, h]

theorem applyTexts_ends {args : List String} (h : Asks t args keep spec texts) :
    Ends depth args t (applyTexts depth keep spec texts t) := by
  cases hread : readLiterals depth texts t.machine with
  | error stop m =>
      rw [applyTexts_of_error hread]
      cases stop with
      | unfinished => exact .failure rfl
      | fault f =>
          have hf := isOfText_of_readLiterals texts t.machine hread
          cases f with
          | invocation issue receiver applied => exact .value h hread
          | builtin defect => exact .failure rfl
          | _ => cases hf
  | ok values m =>
      rw [applyTexts_of_ok hread]
      cases happly : applySpec depth keep (.text spec) (values.headD .null) values.tail m with
      | ok v n =>
          rw [Session.bind_of_ok (Session.reporting_of_ok (Session.ofRun_of_ok happly))]
          cases hrender : n.heap.render v with
          | ok s =>
              dsimp only
              rw [Session.bind_of_ok (Session.render_of_ok hrender)]
              exact .result h hread happly hrender
          | error d =>
              dsimp only
              rw [Session.bind_of_error (Session.render_of_error hrender)]
              exact .failure rfl
      | error stop n =>
          cases hstop : stop.isAccounted with
          | false =>
              rw [Session.bind_of_error
                (Session.reporting_of_failure (Session.ofRun_of_error happly) hstop)]
              exact .failure hstop
          | true =>
              cases stop with
              | unfinished => cases hstop
              | fault f =>
                  rw [Session.bind_of_ok
                    (Session.reporting_of_fault (Session.ofRun_of_error happly) hstop)]
                  exact .report h hread happly hstop

end

theorem run_ends (depth : Nat) (args : List String) (t : Terminal) :
    Ends depth args t (run depth args t) := by
  cases hargs : readArguments false none args with
  | error ending =>
      simp only [run, hargs]
      obtain rfl | rfl := readArguments_error false none args ending hargs
      · exact .usage hargs
      · exact .flag hargs
  | ok request =>
      simp only [run, hargs]
      rw [Session.get_bind]
      cases hlevel : LogLevel.resolve t.environment request.logLevel with
      | error name => exact .level hargs hlevel
      | ok level =>
          obtain ⟨keep, name, values⟩ := request
          cases values with
          | nil => exact .interactive hargs
          | cons spec texts => exact applyTexts_ends ⟨name, level, hargs, hlevel⟩

/-- No fault that the language accounts for ends a line or the loop of the interactive console, for
any terminal. The command line prints a result or reports such a fault, unless the fault is an
invocation that fails while the values are read. -/
theorem faults_contained (depth : Nat) (args : List String) (t : Terminal) :
    (∀ line, Session.Contains (Session.runLine depth line)) ∧
      (∀ lines, Session.Contains (Session.interact depth lines)) ∧
      Ends depth args t (run depth args t) :=
  ⟨Session.contains_runLine depth, Session.contains_interact depth, run_ends depth args t⟩

/-- A value whose callback is no lambda. -/
theorem not_contains_run : ¬ Session.Contains (run 9 ["x", "[1].map('x ->')"]) := fun h =>
  absurd (h (.start [])) (by decide +kernel)

end CommandLine

end StringLambda
