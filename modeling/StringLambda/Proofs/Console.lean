import StringLambda.Console.Interactive
import StringLambda.Proofs.Stops

namespace StringLambda

/-! What sessions write and where they end. -/

namespace Session

variable {α : Type} {t n : Terminal} {stop : Stop}

def endOf : EStateM.Result Stop Terminal α → Terminal
  | .ok _ t => t
  | .error _ t => t

theorem ofRun_of_ok {act : Run α} {a : α} {m : Machine} (h : act t.machine = .ok a m) :
    ofRun act t = .ok a { t with machine := m } := by
  simp only [ofRun, h]

theorem ofRun_of_error {act : Run α} {m : Machine} (h : act t.machine = .error stop m) :
    ofRun act t = .error stop { t with machine := m } := by
  simp only [ofRun, h]

theorem get_bind (act : Terminal → Session α) (t : Terminal) : (get >>= act) t = act t t := rfl

theorem bind_of_ok {act : Session α} {a : α} {β : Type} (h : act t = .ok a n)
    (f : α → Session β) : (act >>= f) t = f a n := by
  simp only [Bind.bind, EStateM.bind, h]

theorem bind_of_error {act : Session α} {β : Type} (h : act t = .error stop n)
    (f : α → Session β) : (act >>= f) t = .error stop n := by
  simp only [Bind.bind, EStateM.bind, h]

theorem render_of_ok {v : Value} {s : String} (h : t.machine.heap.render v = .ok s) :
    render v t = .ok s t := by
  rw [render, get_bind, h]
  rfl

theorem render_of_error {v : Value} {d : Defect} (h : t.machine.heap.render v = .error d) :
    render v t = .error (.fault (.builtin d)) t := by
  rw [render, get_bind, h]
  rfl

theorem wrapper_writeReceiver (t : Terminal) :
    (endOf (writeReceiver t)).wrapper = t.wrapper.release := by
  let released : Terminal := { t with wrapper := t.wrapper.release }
  have hreceiver : receiver t = .ok t.wrapper.held released := rfl
  rw [writeReceiver, bind_of_ok hreceiver]
  cases h : released.machine.heap.render t.wrapper.held with
  | ok s => rw [bind_of_ok (render_of_ok h)]; rfl
  | error d => rw [bind_of_error (render_of_error h)]; rfl

theorem setWrapper_eq (w : Wrapper) (t : Terminal) :
    setWrapper w t = .ok () { t with wrapper := w } := rfl

theorem writeError_eq (s : String) (t : Terminal) :
    writeError s t = .ok () { t with errors := t.errors ++ s ++ "\n" } := rfl

def errorReport (environment : Environment) (f : Fault) : String :=
  "Error: " ++ f.message ++ "\n" ++ if environment.showsTrace then traceHead ++ "\n" else ""

def withReport (t : Terminal) (f : Fault) : Terminal :=
  { t with errors := t.errors ++ errorReport t.environment f }

theorem reportFault_eq (f : Fault) (t : Terminal) : reportFault f t = .ok () (withReport t f) := by
  have hfirst : writeError ("Error: " ++ f.message) t =
      .ok () { t with errors := t.errors ++ ("Error: " ++ f.message) ++ "\n" } := rfl
  rw [reportFault, bind_of_ok hfirst, get_bind]
  cases h : t.environment.showsTrace <;>
    simp [h, withReport, errorReport, writeError_eq, String.append_assoc, Pure.pure, EStateM.pure]

variable {act : Session α}

theorem reporting_of_ok {a : α} (h : act t = .ok a n) : reporting act t = .ok (some a) n := by
  simp only [reporting, h]

theorem reporting_of_fault {f : Fault} (h : act t = .error (.fault f) n)
    (hf : f.isAccounted = true) : reporting act t = .ok none (withReport n f) := by
  simp only [reporting, h, hf, if_true]
  exact bind_of_ok (reportFault_eq f n) _

theorem reporting_of_failure (h : act t = .error stop n) (hstop : stop.isAccounted = false) :
    reporting act t = .error stop n := by
  cases stop with
  | fault f =>
      have hf : f.isAccounted = false := hstop
      simp only [reporting, h, hf, Bool.false_eq_true, if_false]
  | unfinished => simp only [reporting, h]

end Session

end StringLambda
