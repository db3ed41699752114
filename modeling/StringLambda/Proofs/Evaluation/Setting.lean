import StringLambda.Combinator
import StringLambda.Proofs.Evaluation.Congruence

namespace StringLambda

open Run

/-! The setting of a run: what is registered, the default host and the scope in place. Whatever a
run does and however it ends, the setting afterwards is the one before. -/

def Run.KeepsSetting {α : Type} (act : Run α) : Prop :=
  ∀ m, SameSetting (endOf (act m)) m

namespace Run.KeepsSetting

variable {α β : Type} {act : Run α}

theorem bind {f : α → Run β} (h : act.KeepsSetting) (hf : ∀ a, (f a).KeepsSetting) :
    (act >>= f).KeepsSetting := by
  intro m
  have hact := h m
  simp only [Bind.bind, EStateM.bind]
  cases hm : act m with
  | ok a n =>
      rw [hm] at hact
      exact (hf a n).trans hact
  | error e n =>
      rw [hm] at hact
      exact hact

theorem located (h : act.KeepsSetting) (place : Option Position) :
    (Run.located place act).KeepsSetting := by
  intro m
  have hact := h m
  simp only [Run.located, mapStop]
  cases hm : act m <;> rw [hm] at hact <;> exact hact

theorem withScope (h : act.KeepsSetting) (scope : Option Ref) :
    (Run.withScope scope act).KeepsSetting := by
  intro m
  have hact := h { m with scope }
  simp only [Run.withScope]
  cases hm : act { m with scope } <;> rw [hm] at hact <;>
    exact ⟨hact.members, hact.globals, hact.hosts, hact.host, rfl⟩

end Run.KeepsSetting

/-- Keeping the setting as a congruence of every run with itself. -/
def settled : Congruence where
  rel act other := act = other ∧ act.KeepsSetting
  tame h := ⟨rfl, h.keeps⟩
  bind h hf := by
    refine ⟨?_, h.2.bind fun a => (hf a).2⟩
    rw [h.1, funext fun a => (hf a).1]
  located h place := ⟨by rw [h.1], h.2.located place⟩

theorem settled_keepsScopes : settled.KeepsScopes :=
  fun scope _ _ h => ⟨by rw [h.1], h.2.withScope scope⟩

theorem settled_reading {α : Type} (g : Machine → α) :
    settled.rel (do return g (← get)) (do return g (← get)) :=
  ⟨rfl, fun _ => ⟨rfl, rfl, rfl, rfl, rfl⟩⟩

theorem settled_plain {α : Type} {act : Run α} (h : act.Plain) : settled.rel act act :=
  ⟨rfl, h.keeps⟩

theorem settled_asks (host : Option Host) : settled.Asks host :=
  Stepwise.asks (settled_reading _)
    (fun _ => Stepwise.searches (fun act => settled_plain (.ofAct act)) (settled_reading _)) host

theorem settled_compiles {call other : Caller} (h : settled.Calls call other) :
    settled.Compiles call other :=
  Stepwise.compiles (fun _ _ _ => settled_plain (.compileSpec _ _ _)) h

theorem call_settled (depth : Nat) : settled.Calls (call depth) (call depth) :=
  call_rel settled_keepsScopes (settled_reading _) settled_asks (fun _ => settled_compiles) depth

theorem eval_keepsSetting (depth : Nat) (frame : Frame) (t : Tree) :
    (eval (call depth) frame t).KeepsSetting :=
  (eval_rel (call_settled depth) (settled_asks _) t).2

theorem evalStep_keepsSetting (depth : Nat) (frame : Frame) (receiver : Value) (step : Tree) :
    (evalStep (call depth) frame receiver step).KeepsSetting :=
  (evalStep_rel (call_settled depth) (settled_asks _) receiver step).2

theorem thrush_keepsSetting (depth : Nat) (receiver spec : Value) (args : List Value)
    (scope : Option Ref) : (thrush depth receiver spec args scope).KeepsSetting :=
  (invoke_rel settled_keepsScopes (call_settled depth) (settled_compiles (call_settled depth))
    _ _ _ _ (settled_asks _)).2

end StringLambda
