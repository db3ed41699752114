import StringLambda.Call
import StringLambda.Proofs.Evaluation.Notes

namespace StringLambda

open Run

/-! Texts that name no member: the search for one changes notes only, and the text is compiled and
evaluated under the scope and the host of the invocation. -/

/-- No member of the receiver has the text for a name, and what the embedding program has put in the
place of the host leaves all values as they are when it looks for one. -/
structure Unnamed (call : Caller) (host : Host) (receiver : Value) (text : String) (m : Machine) :
    Prop where
  missing : ∃ n, Member.find call host receiver text m = .ok none n
  spared : ∀ search, m.hosts host = some search → ∀ s,
    search receiver text ⟨m.heap, m.fresh⟩ = .ok none s → s = ⟨m.heap, m.fresh⟩

namespace Value

variable {v : Value} {name : String} {s s' : Arena}

theorem eq_of_lambdaPart?_none {f : Lambda} (h : lambdaPart? f name s = .ok none s') :
    s' = s := by
  unfold lambdaPart? at h
  split at h
  iterate 5 next => cases h
  next => cases h; rfl

theorem eq_of_boundPart?_none (h : v.boundPart? name s = .ok none s') : s' = s := by
  unfold boundPart? at h
  split at h
  iterate 3 next => cases h
  next => cases h; rfl

theorem eq_of_part?_none (h : v.part? name s = .ok none s') : s' = s := by
  cases v with
  | lambda id f => exact eq_of_lambdaPart?_none h
  | bound id function receiver => exact eq_of_boundPart?_none h
  | _ => exact (EStateM.Result.ok.inj h).2.symm

theorem eq_of_attribute?_none (h : v.attribute? name s = .ok none s') : s' = s := by
  obtain ⟨part, t, hpart, h⟩ := exists_of_bind_eq_ok h
  cases part with
  | some part => cases h
  | none =>
      cases eq_of_part?_none hpart
      cases hmethod : Method.find? v.type.lineage name with
      | some method =>
          simp only [hmethod] at h
          cases h
      | none =>
          simp only [hmethod] at h
          cases h
          rfl

end Value

namespace Member

variable {caller : Caller} {host : Host} {receiver : Value} {name : String} {m n : Machine}

theorem exists_entry?_eq (receiver : Value) (name : String) (m : Machine) :
    ∃ v, (liftM (receiver.entry? name) : Run (Option Value)) m = .ok v m := by
  cases receiver <;> exact ⟨_, rfl⟩

theorem eq_of_findStandard_none (h : findStandard caller receiver name m = .ok none n) :
    n = m := by
  simp only [findStandard, registration?_bind] at h
  cases hreg : m.registration? receiver.type.lineage name with
  | some reg =>
      rw [hreg] at h
      obtain ⟨member, k, -, h⟩ := exists_of_bind_eq_ok h
      cases h
  | none =>
      obtain ⟨entry, hentry⟩ := exists_entry?_eq receiver name m
      simp only [hreg, bind_of_ok hentry] at h
      cases entry with
      | some v => cases h
      | none =>
          dsimp only at h
          split at h
          next => cases h; rfl
          next =>
            obtain ⟨v, k, hread, h⟩ := exists_of_bind_eq_ok h
            have hread : ofAct (receiver.attribute? name) m = .ok v k := hread
            obtain ⟨s, hattribute, rfl⟩ := exists_of_ofAct_eq_ok hread
            cases v with
            | some v => cases h
            | none =>
                cases Value.eq_of_attribute?_none hattribute
                cases h
                rfl

theorem agrees_of_findBy_none (hm : m.Coherent)
    (h : findBy caller host receiver name m = .ok none n) : m.Agrees n := by
  cases host with
  | standard | other =>
      cases eq_of_findStandard_none h
      exact .refl hm
  | keysOnly =>
      obtain ⟨entry, hentry⟩ := exists_entry?_eq receiver name m
      simp only [findBy, bind_of_ok hentry] at h
      have hn : m = n := (EStateM.Result.ok.inj h).2
      exact hn ▸ .refl hm
  | tracing =>
      let searched : Machine := { m with searches := (receiver.type, name) :: m.searches }
      have hsearched : findStandard caller receiver name searched = .ok none n := h
      rw [eq_of_findStandard_none hsearched]
      exact .noted hm m.events searched.searches

end Member

namespace Unnamed

variable {caller : Caller} {host : Host} {receiver : Value} {text : String} {m : Machine}

theorem of_unregistered (hkeys : host ≠ .keysOnly) (hsearch : m.hosts host = none)
    (hreg : m.registration? receiver.type.lineage text = none)
    (hentry : receiver.entry? text = pure none) (hname : Text.isIdentifier text = false) :
    Unnamed caller host receiver text m := by
  obtain ⟨n, hn, -, hfind⟩ := Member.exists_find_eq hkeys hsearch caller receiver text
  refine ⟨⟨n, hfind.trans ?_⟩, fun search hplace => nomatch hsearch.symm.trans hplace⟩
  simp only [Member.findStandard, registration?_bind, (hn.registration?_eq _ _).trans hreg, hentry,
    hname]
  rfl

theorem exists_find (h : Unnamed caller host receiver text m) (hm : m.Coherent) :
    ∃ n, m.Agrees n ∧ Member.find caller host receiver text m = .ok none n := by
  obtain ⟨n, hfind⟩ := h.missing
  refine ⟨n, ?_, hfind⟩
  simp only [Member.find, search?_bind] at hfind
  cases hsearch : m.hosts host with
  | none =>
      rw [hsearch] at hfind
      exact Member.agrees_of_findBy_none hm hfind
  | some search =>
      rw [hsearch] at hfind
      obtain ⟨found, k, hrun, hfind⟩ := exists_of_bind_eq_ok hfind
      have hrun : ofAct (search receiver text) m = .ok found k := hrun
      obtain ⟨s, hfound, rfl⟩ := exists_of_ofAct_eq_ok hrun
      cases found with
      | some found => cases hfind
      | none =>
          cases h.spared search hsearch s hfound
          cases hfind
          exact .refl hm

end Unnamed

section

variable {depth : Nat} {receiver : Value} {host : Option Host} {m : Machine} (hm : m.Coherent)
include hm

/-- A text that names nothing and compiles in any case is evaluated under the scope and the host of
the invocation. -/
theorem exists_invoke_source {text : String} {f : Lambda}
    (hsource : ∀ bound, Lambda.ofSource bound text = .ok f)
    (htext : Unnamed (call (depth + 1)) (host.getD m.host) receiver text m) (args : List Value)
    (scope : Option Ref) :
    ∃ n, m.Agrees n ∧ invoke (call (depth + 1)) receiver (.text text) args scope host m =
      withScope scope (eval (call depth)
        ⟨Frame.bind f.params (receiver :: args), scope, some (host.getD m.host)⟩ f.body) n := by
  obtain ⟨k, hk, hfind⟩ := htext.exists_find hm
  obtain ⟨id, n, hn, hspec⟩ := exists_compileSpec_eq hk.symm.known hsource receiver scope
  have htextual : invoke (call (depth + 1)) receiver (.text text) args scope host m =
      invokeText (call (depth + 1)) receiver text args scope (host.getD m.host) m := by
    cases host <;> rfl
  let reported : Machine := { n with events := .invokingLambda f.form text :: n.events }
  have hreported : n.Agrees reported := .noted hn.symm.known reported.events n.searches
  refine ⟨reported, (hk.trans hn).trans hreported, ?_⟩
  exact htextual.trans ((bind_of_ok hfind _).trans (bind_of_ok hspec _))

end

end StringLambda
