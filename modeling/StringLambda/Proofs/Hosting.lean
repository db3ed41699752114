import StringLambda.Proofs.Evaluation.Congruence

namespace StringLambda

open Run

/-! The host of an invocation. An invocation that is given a host ends the same whatever the default
host is and however other hosts find members, as long as it looks up no member by them. -/

def Search.giveUp : Search := fun _ _ => throw .unfinished

namespace Machine

/-- Members are found by allowed hosts alone, and the default host is none of them. -/
structure IsGuarded (m : Machine) (allowed : Host → Bool) : Prop where
  host : allowed m.host = false
  hosts : ∀ k, allowed k = false → m.hosts k = some .giveUp

theorem IsGuarded.congr {m n : Machine} {allowed : Host → Bool} (h : m.IsGuarded allowed)
    (hhost : n.host = m.host) (hhosts : n.hosts = m.hosts) : n.IsGuarded allowed where
  host := hhost ▸ h.host
  hosts k hk := hhosts ▸ h.hosts k hk

end Machine

/-- From a guarded state the one run ends early, or the other one ends the same under every default
host and with every change to the hosts that are not allowed. -/
structure Hosted (allowed : Host → Bool) {α : Type} (act other : Run α) : Prop where
  ends : ∀ m, m.IsGuarded allowed → ∀ host hosts, (∀ k, allowed k = true → hosts k = m.hosts k) →
    (∃ n, act m = .error .unfinished n) ∨
      other { m with host, hosts } = onState (fun n => { n with host, hosts }) (act m)
  keeps : ∀ m, m.IsGuarded allowed →
    (endOf (act m)).host = m.host ∧ (endOf (act m)).hosts = m.hosts

namespace Hosted

variable {allowed : Host → Bool} {α β : Type} {act other : Run α}

theorem plain (h : act.Plain) : Hosted allowed act act where
  ends m _ host hosts _ := .inr (h.under_hosts m host hosts)
  keeps m _ := ⟨(h.keeps m).host, (h.keeps m).hosts⟩

theorem bind {f g : α → Run β} (h : Hosted allowed act other)
    (hf : ∀ a, Hosted allowed (f a) (g a)) : Hosted allowed (act >>= f) (other >>= g) := by
  refine ⟨fun m hm host hosts hsame => ?_, fun m hm => ?_⟩
  · have hkeeps := h.keeps m hm
    rcases h.ends m hm host hosts hsame with ⟨n, hact⟩ | hact
    · exact .inl ⟨n, bind_of_error hact f⟩
    · simp only [Bind.bind, EStateM.bind, hact]
      cases hends : act m with
      | ok a n =>
          -- The next run starts with the hosts that the first one started with.
          rw [hends] at hkeeps
          refine (hf a).ends n (hm.congr hkeeps.1 hkeeps.2) host hosts fun k hk => ?_
          exact (hsame k hk).trans (congrFun hkeeps.2.symm k)
      | error e n => exact .inr rfl
  · have hkeeps := h.keeps m hm
    simp only [Bind.bind, EStateM.bind]
    cases hends : act m with
    | ok a n =>
        rw [hends] at hkeeps
        have hnext := (hf a).keeps n (hm.congr hkeeps.1 hkeeps.2)
        exact ⟨hnext.1.trans hkeeps.1, hnext.2.trans hkeeps.2⟩
    | error e n =>
        rw [hends] at hkeeps
        exact hkeeps

theorem located (h : Hosted allowed act other) (place : Option Position) :
    Hosted allowed (Run.located place act) (Run.located place other) := by
  refine ⟨fun m hm host hosts hsame => ?_, fun m hm => ?_⟩
  · simp only [Run.located, mapStop]
    rcases h.ends m hm host hosts hsame with ⟨n, hact⟩ | hact
    · exact .inl ⟨n, by rw [hact]; rfl⟩
    · rw [hact]
      cases act m <;> exact .inr rfl
  · have hkeeps := h.keeps m hm
    simp only [Run.located, mapStop]
    cases hends : act m <;> rw [hends] at hkeeps <;> exact hkeeps

theorem withScope (h : Hosted allowed act other) (scope : Option Ref) :
    Hosted allowed (Run.withScope scope act) (Run.withScope scope other) := by
  refine ⟨fun m hm host hosts hsame => ?_, fun m hm => ?_⟩
  · simp only [Run.withScope]
    rcases h.ends { m with scope } (hm.congr rfl rfl) host hosts hsame with ⟨n, hact⟩ | hact
    · exact .inl ⟨_, by rw [hact]⟩
    · rw [hact]
      cases act { m with scope } <;> exact .inr rfl
  · have hkeeps := h.keeps { m with scope } (hm.congr rfl rfl)
    simp only [Run.withScope]
    cases hends : act { m with scope } <;> rw [hends] at hkeeps <;> exact hkeeps

theorem search {k : Host} (hk : allowed k = true) : Hosted allowed (search? k) (search? k) where
  ends m _ host hosts hsame := by
    refine .inr ?_
    exact congrArg (EStateM.Result.ok · { m with host, hosts }) (hsame k hk)
  keeps _ _ := ⟨rfl, rfl⟩

end Hosted

section

variable {allowed : Host → Bool}

end

namespace Run

end Run

end StringLambda
