import StringLambda.Proofs.Evaluation.Congruence

namespace StringLambda

open Run

/-! Calls do not see the notes: from states that agree but for them, the same call ends alike. -/

def oblivious : Congruence where
  rel act other := Oblivious act other
  tame h := h.oblivious
  bind h hf := h.bind hf
  located h place := h.located place

theorem oblivious_keepsScopes : oblivious.KeepsScopes :=
  fun scope _ _ h => Oblivious.withScope h scope

theorem oblivious_searches (k : Host) : oblivious.Searches k :=
  Stepwise.searches (C := oblivious.toStepwise) (fun act => .ofAct act)
    (.reads fun _ _ h => by rw [h.hosts])

theorem oblivious_asks (host : Option Host) : oblivious.Asks host :=
  Stepwise.asks (C := oblivious.toStepwise) (.reads fun _ _ h => h.host.symm) oblivious_searches
    host

theorem invokeSource_eq (depth : Nat) (receiver : Value) (spec : String) (args : List Value)
    (scope : Option Ref) (host : Host) :
    invokeSource (call depth) receiver spec args scope host = (do
      let f ← (do return (← compileSpec receiver spec scope).2)
      report (.invokingLambda f.form spec)
      call depth ⟨scope, some host⟩ (.lambda 0 f) (receiver :: args)) := by
  have hcall (id : Nat) (f : Lambda) : call depth ⟨scope, some host⟩ (.lambda id f) =
      call depth ⟨scope, some host⟩ (.lambda 0 f) := by
    cases depth <;> rfl
  simp only [invokeSource, hcall, bind_assoc, pure_bind]

theorem oblivious_compiles {depth : Nat} (h : oblivious.Calls (call depth) (call depth)) :
    oblivious.Compiles (call depth) (call depth) := by
  intro receiver spec args scope host
  rw [invokeSource_eq]
  exact Oblivious.bind (compileSpec_oblivious receiver spec scope) fun f =>
    Oblivious.bind (.report _) fun _ => h _ _ _

theorem call_oblivious (depth : Nat) : oblivious.Calls (call depth) (call depth) :=
  call_rel oblivious_keepsScopes (.reads fun _ _ h => h.scope.symm) oblivious_asks
    (fun _ => oblivious_compiles) depth

theorem find_oblivious (depth : Nat) (host : Host) (receiver : Value) (name : String) :
    Oblivious (Member.find (call depth) host receiver name)
      (Member.find (call depth) host receiver name) :=
  Member.find_rel (call_oblivious depth) (oblivious_searches host) receiver name

theorem invoke_oblivious (depth : Nat) (receiver spec : Value) (args : List Value)
    (scope : Option Ref) (host : Option Host) :
    Oblivious (invoke (call depth) receiver spec args scope host)
      (invoke (call depth) receiver spec args scope host) :=
  invoke_rel oblivious_keepsScopes (call_oblivious depth)
    (oblivious_compiles (call_oblivious depth)) _ _ _ _ (oblivious_asks host)

theorem Run.Oblivious.coherent {α : Type} {act : Run α} {m : Machine} (h : Oblivious act act)
    (hm : m.Coherent) : (endOf (act m)).Coherent := by
  have hends := h m m (.refl hm)
  generalize act m = result at hends
  cases hends with
  | ok a h => exact h.known
  | error stop h => exact h.known

end StringLambda
