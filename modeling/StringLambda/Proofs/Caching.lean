import StringLambda.Compile
import StringLambda.Lambda.Compiles

namespace StringLambda

/-! A call that compiles a source answers what a compilation without a cache would answer, whatever
calls came before it. -/

namespace Lambda

variable {bound wider : String → Bool} {source : String} {ts : List Token} {f : Lambda}

theorem freeParams_congr {body : Tree} (hle : ∀ x, bound x = true → wider x = true)
    (h : ∀ x ∈ freeParams bound body, wider x = false) :
    freeParams wider body = freeParams bound body := by
  unfold freeParams
  congr 1
  apply List.filter_congr
  intro x hx
  cases hb : bound x with
  | true => rw [hle x hb]
  | false => rw [h x (mem_freeParams.mpr ⟨hx, hb⟩)]

theorem Compiles.params_of_implicit (h : Compiles bound source ts f) (hform : f.form = .implicit) :
    f.params = freeParams bound f.body := by
  cases h with
  | implicit => rfl
  | _ => cases hform

theorem Compiles.congr (h : Compiles bound source ts f)
    (hparams : f.form = .implicit → freeParams wider f.body = freeParams bound f.body) :
    Compiles wider source ts f := by
  cases h with
  | arrow harrow hparts => exact .arrow harrow hparts
  | placeholder harrow hplace hbody => exact .placeholder harrow hplace hbody
  | «section» harrow hplace hparts hbody => exact .section harrow hplace hparts hbody
  | implicit harrow hplace hparts hbody =>
      rw [← hparams rfl]
      exact .implicit harrow hplace hparts hbody

theorem ofSource_congr (h : ofSource bound source = .ok f)
    (hle : ∀ x, bound x = true → wider x = true)
    (hparams : f.form = .implicit → ∀ p ∈ f.params, wider p = false) :
    ofSource wider source = .ok f := by
  obtain ⟨ts, hts, h⟩ := ofSource_eq_ok_iff.mp h
  obtain ⟨heof, hcompiles⟩ := ofTokens_eq_ok_iff_compiles.mp h
  refine ofSource_eq_ok_iff.mpr ⟨ts, hts, ofTokens_eq_ok_iff_compiles.mpr ⟨heof, ?_⟩⟩
  refine hcompiles.congr fun hform => freeParams_congr hle ?_
  rw [← hcompiles.params_of_implicit hform]
  exact hparams hform

theorem bound_of_mem_params (h : ofSource bound source = .ok f) (hform : f.form = .implicit)
    {p : String} (hp : p ∈ f.params) : bound p = false := by
  obtain ⟨ts, -, h⟩ := ofSource_eq_ok_iff.mp h
  rw [(compiles_of_ofTokens h).params_of_implicit hform] at hp
  exact (mem_freeParams.mp hp).2

end Lambda

namespace Machine

variable {m n : Machine} {key : LambdaKey} {id : Nat} {f : Lambda}

def uncached (m : Machine) : Machine :=
  { m with cache := .empty }

def remember (m : Machine) (key : LambdaKey) (f : Lambda) : Machine :=
  { m with
    compiled := m.compiled + 1
    cache := m.cache.put key (m.compiled, f)
    events := .compiled key.source f.form f.params :: m.events }

theorem isStale_eq_true_iff :
    m.isStale f = true ↔ f.form = .implicit ∧ ∃ p ∈ f.params, (m.global? p).isSome = true := by
  simp [isStale]

end Machine

namespace Run

variable (source : String) (names : List Key) (m : Machine)

theorem compileAnew_of_ok {key : LambdaKey} {f : Lambda}
    (h : Lambda.ofSource (m.binds key.names) key.source = .ok f) :
    compileAnew key m = .ok (m.compiled, f) (m.remember key f) := by
  simp only [compileAnew, get_bind, h]
  rfl

theorem compileAnew_of_error {key : LambdaKey} {e : SourceError}
    (h : Lambda.ofSource (m.binds key.names) key.source = .error e) :
    compileAnew key m = .error (.fault (.source e)) m := by
  simp only [compileAnew, get_bind, h]
  rfl

theorem compile_of_none (h : m.cache.get? (.ofNames source names) = none) :
    compile source names m = compileAnew (.ofNames source names) m := by
  simp only [compile, get_bind, h]

theorem compile_of_ofSource {f : Lambda}
    (hentry : m.cache.get? (.ofNames source names) = none)
    (hf : Lambda.ofSource (m.binds (.ofList names)) source = .ok f) :
    compile source names m = .ok (m.compiled, f) (m.remember (.ofNames source names) f) := by
  rw [compile_of_none source names m hentry]
  exact compileAnew_of_ok m hf

theorem compile_of_some {id : Nat} {f : Lambda}
    (h : m.cache.get? (.ofNames source names) = some (id, f)) :
    compile source names m =
      if m.isStale f then compileAnew (.ofNames source names) m
      else .ok (id, f) { m with events := .cacheHit source :: m.events } := by
  simp only [compile, get_bind, h]
  split <;> rfl

/-- A call answers with the remembered lambda where there is one that is not stale. Else it
compiles the source, and remembers the lambda or fails with the state as it was. -/
theorem compile_cases :
    (∃ id f, m.cache.get? (.ofNames source names) = some (id, f) ∧ m.isStale f = false ∧
      compile source names m = .ok (id, f) { m with events := .cacheHit source :: m.events }) ∨
    (∀ id f, m.cache.get? (.ofNames source names) = some (id, f) → m.isStale f = true) ∧
      ((∃ f, Lambda.ofSource (m.binds (.ofList names)) source = .ok f ∧
        compile source names m = .ok (m.compiled, f) (m.remember (.ofNames source names) f)) ∨
      ∃ e, Lambda.ofSource (m.binds (.ofList names)) source = .error e ∧
        compile source names m = .error (.fault (.source e)) m) := by
  have hanew :
      (∃ f, Lambda.ofSource (m.binds (.ofList names)) source = .ok f ∧
        compileAnew (.ofNames source names) m =
          .ok (m.compiled, f) (m.remember (.ofNames source names) f)) ∨
      ∃ e, Lambda.ofSource (m.binds (.ofList names)) source = .error e ∧
        compileAnew (.ofNames source names) m = .error (.fault (.source e)) m := by
    cases hsource : Lambda.ofSource (m.binds (.ofList names)) source with
    | ok f => exact .inl ⟨f, rfl, compileAnew_of_ok m hsource⟩
    | error e => exact .inr ⟨e, rfl, compileAnew_of_error m hsource⟩
  cases hentry : m.cache.get? (.ofNames source names) with
  | none =>
      rw [compile_of_none source names m hentry]
      exact .inr ⟨by simp, hanew⟩
  | some entry =>
      obtain ⟨id, f⟩ := entry
      rw [compile_of_some source names m hentry]
      cases hstale : m.isStale f with
      | true => exact .inr ⟨by simp [hstale], by simpa using hanew⟩
      | false => exact .inl ⟨id, f, rfl, hstale, by simp⟩

theorem compileValue_cases (source : Value) :
    (∃ s id f, source = .text s ∧ m.cache.get? (.ofNames s names) = some (id, f) ∧
      m.isStale f = false ∧ compileValue source names m =
        .ok (.lambda id f) { m with events := .cacheHit s :: m.events }) ∨
    (∃ s f, source = .text s ∧
      (∀ id g, m.cache.get? (.ofNames s names) = some (id, g) → m.isStale g = true) ∧
      Lambda.ofSource (m.binds (.ofList names)) s = .ok f ∧
      compileValue source names m = .ok (.lambda m.compiled f) (m.remember (.ofNames s names) f)) ∨
    (∃ s e, source = .text s ∧
      (∀ id g, m.cache.get? (.ofNames s names) = some (id, g) → m.isStale g = true) ∧
      Lambda.ofSource (m.binds (.ofList names)) s = .error e ∧
      compileValue source names m = .error (.fault (.source e)) m) ∨
    ∃ stop, (∀ s, source ≠ .text s) ∧ ∀ n, compileValue source names n = .error stop n := by
  by_cases htext : ∃ s, source = .text s
  · obtain ⟨s, rfl⟩ := htext
    rcases compile_cases s names m with ⟨id, f, hentry, hstale, h⟩ | ⟨hmiss, hanew⟩
    · refine .inl ⟨s, id, f, rfl, hentry, hstale, ?_⟩
      simp only [compileValue, bind, EStateM.bind, h]
      rfl
    · rcases hanew with ⟨f, hf, h⟩ | ⟨e, he, h⟩
      · refine .inr (.inl ⟨s, f, rfl, hmiss, hf, ?_⟩)
        simp only [compileValue, bind, EStateM.bind, h]
        rfl
      · refine .inr (.inr (.inl ⟨s, e, rfl, hmiss, he, ?_⟩))
        simp only [compileValue, bind, EStateM.bind, h]
  · refine .inr (.inr (.inr ⟨.fault (.compile (.sourceNotText source.type)), ?_, fun n => ?_⟩))
    · exact fun s hs => htext ⟨s, hs⟩
    · cases source <;> first | rfl | exact absurd ⟨_, rfl⟩ htext

end Run

inductive CacheStep where
  | compile (source : Value) (names : List Key)
  | clear
  | setGlobal (name : String) (value : Value)

namespace Run

def stateAfter {α : Type} (act : Run α) (m : Machine) : Machine :=
  match act m with
  | .ok _ n => n
  | .error _ n => n

/-- What a call that compiles a source answers, apart from the identity of the function. -/
def answer (act : Run Value) (m : Machine) : Except Stop (Option Lambda) :=
  match act m with
  | .ok (.lambda _ f) _ => .ok (some f)
  | .ok _ _ => .ok none
  | .error stop _ => .error stop

end Run

namespace Machine

def afterStep (m : Machine) : CacheStep → Machine
  | .compile source names => (Run.compileValue source names).stateAfter m
  | .clear => Run.clearCache.stateAfter m
  | .setGlobal name value => m.setGlobal name value

def afterSteps (m : Machine) (history : List CacheStep) : Machine :=
  history.foldl afterStep m

variable {m n : Machine} {key : LambdaKey} {id : Nat} {f : Lambda}

theorem global?_setGlobal (m : Machine) (name x : String) (v : Value) :
    (m.setGlobal name v).global? x = if x = name then some v else m.global? x := by
  simp only [global?, setGlobal]
  by_cases hx : x = name
  · simp [hx]
  · rw [if_neg hx, List.lookup_cons, beq_false_of_ne hx]
    induction m.globals with
    | nil => rfl
    | cons entry globals ih =>
        obtain ⟨y, w⟩ := entry
        by_cases hy : y = name
        · subst hy
          simpa [List.lookup_cons, beq_false_of_ne hx] using ih
        · rw [List.filter_cons_of_pos (by simpa using hy)]
          simp only [List.lookup_cons]
          cases x == y with
          | true => rfl
          | false => exact ih

/-- Every global of a state is one of the other, with whatever value. -/
def GlobalsLe (m n : Machine) : Prop :=
  ∀ x, (m.global? x).isSome = true → (n.global? x).isSome = true

theorem GlobalsLe.trans {k : Machine} (h : m.GlobalsLe n) (h' : n.GlobalsLe k) : m.GlobalsLe k :=
  fun x hx => h' x (h x hx)

theorem GlobalsLe.binds (h : m.GlobalsLe n) (names : NameSet Key) {x : String}
    (hx : m.binds names x = true) : n.binds names x = true := by
  simp only [Machine.binds, Bool.or_eq_true] at hx ⊢
  exact hx.imp_right (h x)

theorem GlobalsLe.isStale (h : m.GlobalsLe n) (hf : m.isStale f = true) : n.isStale f = true := by
  obtain ⟨hform, p, hp, hglobal⟩ := isStale_eq_true_iff.mp hf
  exact isStale_eq_true_iff.mpr ⟨hform, p, hp, h p hglobal⟩

/-- A lambda made when fewer names were global is what its source is now unless it is stale. -/
theorem ofSource_of_not_isStale {bound : String → Bool} {names : NameSet Key} {source : String}
    (hf : Lambda.ofSource bound source = .ok f)
    (hnames : ∀ x, names.contains (.text x) = true → bound x = true)
    (hbound : ∀ x, bound x = true → m.binds names x = true) (hstale : m.isStale f = false) :
    Lambda.ofSource (m.binds names) source = .ok f := by
  refine Lambda.ofSource_congr hf hbound fun hform p hp => ?_
  have hname : names.contains (.text p) = false := by
    cases hc : names.contains (.text p) with
    | false => rfl
    | true =>
        have hp' := Lambda.bound_of_mem_params hf hform hp
        rw [hnames p hc] at hp'
        cases hp'
  have hglobal : (m.global? p).isSome = false := by
    cases hg : (m.global? p).isSome with
    | false => rfl
    | true =>
        rw [isStale_eq_true_iff.mpr ⟨hform, p, hp, hg⟩] at hstale
        cases hstale
  simp only [Machine.binds, hname, hglobal, Bool.or_self]

/-- A remembered lambda is what its source was when fewer names were global. -/
def Coherent (m : Machine) : Prop :=
  ∀ key id f, m.cache.get? key = some (id, f) →
    ∃ bound : String → Bool, (∀ x, key.names.contains (.text x) = true → bound x = true) ∧
      (∀ x, bound x = true → m.binds key.names x = true) ∧
      Lambda.ofSource bound key.source = .ok f

namespace Coherent

theorem uncached (m : Machine) : m.uncached.Coherent := by
  intro key id f h
  cases h

theorem grow (h : m.Coherent) (hcache : n.cache = m.cache) (hle : m.GlobalsLe n) :
    n.Coherent := by
  intro key id f hentry
  rw [hcache] at hentry
  obtain ⟨bound, hnames, hbound, hf⟩ := h key id f hentry
  exact ⟨bound, hnames, fun x hx => hle.binds _ (hbound x hx), hf⟩

theorem remember (h : m.Coherent) (hf : Lambda.ofSource (m.binds key.names) key.source = .ok f) :
    (m.remember key f).Coherent := by
  intro other id g hentry
  simp only [Machine.remember, Cache.get?_put] at hentry
  split at hentry
  next heq =>
    cases hentry
    subst heq
    exact ⟨_, fun x hx => by simp only [Machine.binds, hx, Bool.true_or], fun x hx => hx, hf⟩
  next => exact h other id g hentry

theorem ofSource_eq (h : m.Coherent) (hentry : m.cache.get? key = some (id, f))
    (hstale : m.isStale f = false) : Lambda.ofSource (m.binds key.names) key.source = .ok f := by
  obtain ⟨_, hnames, hbound, hf⟩ := h key id f hentry
  exact ofSource_of_not_isStale hf hnames hbound hstale

end Coherent

/-- A call that compiles a source leaves the cache or puts the lambda of the source in it. -/
theorem afterStep_compile (m : Machine) (source : Value) (names : List Key) :
    (∃ events, m.afterStep (.compile source names) = { m with events }) ∨
    ∃ s f, source = .text s ∧
      (∀ id g, m.cache.get? (.ofNames s names) = some (id, g) → m.isStale g = true) ∧
      Lambda.ofSource (m.binds (.ofList names)) s = .ok f ∧
      m.afterStep (.compile source names) = m.remember (.ofNames s names) f := by
  rcases Run.compileValue_cases names m source with ⟨s, id, f, -, -, -, h⟩ |
    ⟨s, f, hs, hmiss, hf, h⟩ | ⟨s, e, -, -, -, h⟩ | ⟨stop, -, h⟩
  · exact .inl ⟨.cacheHit s :: m.events, by simp only [afterStep, Run.stateAfter, h]⟩
  · exact .inr ⟨s, f, hs, hmiss, hf, by simp only [afterStep, Run.stateAfter, h]⟩
  · exact .inl ⟨m.events, by simp only [afterStep, Run.stateAfter, h]⟩
  · exact .inl ⟨m.events, by simp only [afterStep, Run.stateAfter, h m]⟩

theorem globalsLe_afterStep (m : Machine) (r : CacheStep) : m.GlobalsLe (m.afterStep r) := by
  intro x hx
  cases r with
  | compile source names =>
      rcases m.afterStep_compile source names with ⟨events, h⟩ | ⟨s, f, -, -, -, h⟩
      · rwa [h]
      · rwa [h]
  | clear => exact hx
  | setGlobal name value =>
      simp only [afterStep, global?_setGlobal]
      split
      · rfl
      · exact hx

theorem globalsLe_afterSteps (m : Machine) (history : List CacheStep) :
    m.GlobalsLe (m.afterSteps history) := by
  induction history generalizing m with
  | nil => exact fun x hx => hx
  | cons r history ih => exact (m.globalsLe_afterStep r).trans (ih _)

theorem Coherent.afterStep (h : m.Coherent) (r : CacheStep) : (m.afterStep r).Coherent := by
  cases r with
  | compile source names =>
      rcases m.afterStep_compile source names with ⟨events, hm⟩ | ⟨s, f, -, -, hf, hm⟩
      · rw [hm]
        exact h.grow rfl fun x hx => hx
      · rw [hm]
        exact h.remember hf
  | clear => exact Coherent.uncached m
  | setGlobal name value => exact h.grow rfl (m.globalsLe_afterStep (.setGlobal name value))

theorem Coherent.afterSteps (h : m.Coherent) (history : List CacheStep) :
    (m.afterSteps history).Coherent := by
  induction history generalizing m with
  | nil => exact h
  | cons r history ih => exact ih (h.afterStep r)

theorem get?_afterStep (hentry : m.cache.get? key = some (id, f)) {r : CacheStep}
    (hr : r ≠ .clear) (hstale : m.isStale f = false) :
    (m.afterStep r).cache.get? key = some (id, f) := by
  cases r with
  | compile source names =>
      rcases m.afterStep_compile source names with ⟨events, hm⟩ | ⟨s, g, -, hmiss, -, hm⟩
      · rwa [hm]
      · rw [hm]
        simp only [remember, Cache.get?_put]
        split
        next heq =>
          rw [hmiss id f (heq ▸ hentry)] at hstale
          cases hstale
        next => exact hentry
  | clear => exact absurd rfl hr
  | setGlobal name value => exact hentry

theorem get?_afterSteps (hentry : m.cache.get? key = some (id, f)) {history : List CacheStep}
    (hclear : CacheStep.clear ∉ history) (hstale : (m.afterSteps history).isStale f = false) :
    (m.afterSteps history).cache.get? key = some (id, f) := by
  induction history generalizing m with
  | nil => exact hentry
  | cons r history ih =>
      rw [List.mem_cons, not_or] at hclear
      -- Globals only grow, so a lambda that is not stale at the end never was.
      have hnow : m.isStale f = false := by
        cases hm : m.isStale f with
        | false => rfl
        | true =>
            rw [(m.globalsLe_afterSteps (r :: history)).isStale hm] at hstale
            cases hstale
      exact ih (get?_afterStep hentry (Ne.symm hclear.1) hnow) hclear.2 hstale

end Machine

namespace Machine

variable {m : Machine} {key : LambdaKey}

/-- What is remembered under a key and has not become stale is what its source is now. -/
def Fresh (m : Machine) (key : LambdaKey) : Prop :=
  ∀ id f, m.cache.get? key = some (id, f) → m.isStale f = false →
    Lambda.ofSource (m.binds key.names) key.source = .ok f

namespace Fresh

theorem of_isStale (h : ∀ id f, m.cache.get? key = some (id, f) → m.isStale f = true) :
    m.Fresh key := by
  intro id f hentry hstale
  rw [h id f hentry] at hstale
  cases hstale

theorem afterStep (h : m.Fresh key) (r : CacheStep) : (m.afterStep r).Fresh key := by
  cases r with
  | compile source names =>
      rcases m.afterStep_compile source names with ⟨events, hm⟩ | ⟨s, g, -, -, hg, hm⟩
      · rw [hm]
        exact h
      · rw [hm]
        intro id f hentry hstale
        simp only [remember, Cache.get?_put] at hentry
        split at hentry
        next heq =>
          cases hentry
          subst heq
          exact hg
        next => exact h id f hentry hstale
  | clear => exact fun id f hentry => nomatch hentry
  | setGlobal name value =>
      have hle : m.GlobalsLe (m.setGlobal name value) :=
        m.globalsLe_afterStep (.setGlobal name value)
      intro id f hentry hstale
      have hnow : m.isStale f = false := by
        cases hm : m.isStale f with
        | false => rfl
        | true =>
            rw [show (m.afterStep (.setGlobal name value)).isStale f = true from hle.isStale hm]
              at hstale
            cases hstale
      exact ofSource_of_not_isStale (h id f hentry hnow)
        (fun x hx => by simp only [Machine.binds, hx, Bool.true_or])
        (fun x hx => hle.binds _ hx) hstale

theorem afterSteps (h : m.Fresh key) (history : List CacheStep) :
    (m.afterSteps history).Fresh key := by
  induction history generalizing m with
  | nil => exact h
  | cons r history ih => exact ih (h.afterStep r)

theorem compile_iff {source : String} {names : List Key} {f : Lambda}
    (h : m.Fresh (.ofNames source names)) :
    (∃ id after, Run.compile source names m = .ok (id, f) after) ↔
      Lambda.ofSource (m.binds (.ofList names)) source = .ok f := by
  rcases Run.compile_cases source names m with ⟨id, g, hentry, hstale, hm⟩ |
    ⟨-, ⟨g, hg, hm⟩ | ⟨e, he, hm⟩⟩
  · have hg : Lambda.ofSource (m.binds (.ofList names)) source = .ok g := h id g hentry hstale
    simp [hm, hg]
  · simp [hm, hg]
  · simp [hm, he]

end Fresh

end Machine

namespace Run

variable {m : Machine} {source : Value} {names : List Key}

/-- In a coherent state the cache does not show in what a call answers. -/
theorem answer_uncached (h : m.Coherent) :
    (compileValue source names).answer m = (compileValue source names).answer m.uncached := by
  rcases compileValue_cases names m.uncached source with ⟨s, id, f, -, hentry, -⟩ |
    ⟨s, f, rfl, -, hf, hanew⟩ | ⟨s, e, rfl, -, he, hanew⟩ | ⟨stop, -, hstop⟩
  · cases hentry
  -- The names bound outside are the same, so the source is compiled to the same answer.
  · have hnow : Lambda.ofSource (m.binds (.ofList names)) s = .ok f := hf
    rcases compileValue_cases names m (.text s) with ⟨_, id, g, hs, hentry, hstale, hm⟩ |
      ⟨_, g, hs, -, hg, hm⟩ | ⟨_, e, hs, -, he, -⟩ | ⟨-, hs, -⟩
    · cases hs
      have hg := h.ofSource_eq hentry hstale
      rw [show (LambdaKey.ofNames s names).names = .ofList names from rfl] at hg
      cases hnow.symm.trans hg
      simp only [answer, hm, hanew]
    · cases hs
      cases hnow.symm.trans hg
      simp only [answer, hm, hanew]
    · cases hs
      cases hnow.symm.trans he
    · exact absurd rfl (hs s)
  · have hnow : Lambda.ofSource (m.binds (.ofList names)) s = .error e := he
    rcases compileValue_cases names m (.text s) with ⟨_, id, g, hs, hentry, hstale, -⟩ |
      ⟨_, g, hs, -, hg, -⟩ | ⟨_, e', hs, -, he', hm⟩ | ⟨-, hs, -⟩
    · cases hs
      cases hnow.symm.trans (h.ofSource_eq hentry hstale)
    · cases hs
      cases hnow.symm.trans hg
    · cases hs
      cases hnow.symm.trans he'
      simp only [answer, hm, hanew]
    · exact absurd rfl (hs s)
  · simp only [answer, hstop]

theorem eq_of_compileValue_error {stop : Stop} {after : Machine}
    (h : compileValue source names m = .error stop after) : after = m := by
  rcases compileValue_cases names m source with ⟨_, _, _, -, -, -, hm⟩ | ⟨_, _, -, -, -, hm⟩ |
    ⟨_, _, -, -, -, hm⟩ | ⟨_, -, hm⟩
  · cases hm.symm.trans h
  · cases hm.symm.trans h
  · cases hm.symm.trans h
    rfl
  · cases (hm m).symm.trans h
    rfl

theorem entry_of_compileValue_ok {v : Value} {after : Machine}
    (h : compileValue source names m = .ok v after) :
    ∃ s id f, source = .text s ∧ v = .lambda id f ∧
      after.cache.get? (.ofNames s names) = some (id, f) := by
  rcases compileValue_cases names m source with ⟨s, id, f, hs, hentry, -, hm⟩ |
    ⟨s, f, hs, -, -, hm⟩ | ⟨_, _, -, -, -, hm⟩ | ⟨_, -, hm⟩
  · cases hm.symm.trans h
    exact ⟨s, id, f, hs, rfl, hentry⟩
  · cases hm.symm.trans h
    exact ⟨s, m.compiled, f, hs, rfl, by simp [Machine.remember, Cache.get?_put]⟩
  · cases hm.symm.trans h
  · cases (hm m).symm.trans h

theorem compileValue_of_entry {s : String} {id : Nat} {f : Lambda}
    (hentry : m.cache.get? (.ofNames s names) = some (id, f)) (hstale : m.isStale f = false) :
    ∃ after, compileValue (.text s) names m = .ok (.lambda id f) after := by
  rcases compileValue_cases names m (.text s) with ⟨_, _, _, hs, hentry', -, hm⟩ |
    ⟨_, _, hs, hmiss, -⟩ | ⟨_, _, hs, hmiss, -⟩ | ⟨_, hs, -⟩
  · cases hs
    cases hentry.symm.trans hentry'
    exact ⟨_, hm⟩
  · cases hs
    rw [hmiss id f hentry] at hstale
    cases hstale
  · cases hs
    rw [hmiss id f hentry] at hstale
    cases hstale
  · exact absurd rfl (hs s)

theorem get?_of_ne {key : LambdaKey} (h : ∀ s, source = .text s → key ≠ .ofNames s names) :
    (m.afterStep (.compile source names)).cache.get? key = m.cache.get? key := by
  rcases m.afterStep_compile source names with ⟨_, hm⟩ | ⟨s, _, hs, -, -, hm⟩
  · rw [hm]
  · rw [hm]
    simp only [Machine.remember, Cache.get?_put, if_neg (h s hs)]

end Run

/-- After any history of steps, a call that compiles a source answers what it would answer with
nothing remembered. If it fails, nothing is remembered, and if it succeeds, the later calls for the
same source and the same names answer the same function, until the cache is cleared or a parameter
taken from the expression becomes global. What is remembered for other calls stays. -/
theorem compile_coherent (m : Machine) (history : List CacheStep) (source : Value)
    (names : List Key) :
    let now := m.uncached.afterSteps history
    (Run.compileValue source names).answer now =
      (Run.compileValue source names).answer now.uncached ∧
    (∀ stop after, Run.compileValue source names now = .error stop after →
      after.cache = now.cache) ∧
    (∀ v after, Run.compileValue source names now = .ok v after →
      ∃ s id f, source = .text s ∧ v = .lambda id f ∧
        after.cache.get? (.ofNames s names) = some (id, f) ∧
        ∀ later others, CacheStep.clear ∉ later → (∀ x, x ∈ others ↔ x ∈ names) →
          ¬ (f.form = .implicit ∧
            ∃ p ∈ f.params, ((after.afterSteps later).global? p).isSome = true) →
          ∃ last, Run.compileValue source others (after.afterSteps later) =
            .ok (.lambda id f) last) ∧
    ∀ key, (∀ s, source = .text s → key ≠ .ofNames s names) →
      (now.afterStep (.compile source names)).cache.get? key = now.cache.get? key := by
  intro now
  have hnow : now.Coherent := (Machine.Coherent.uncached m).afterSteps history
  refine ⟨Run.answer_uncached hnow, ?_, ?_, fun key hkey => Run.get?_of_ne hkey⟩
  · intro stop after h
    rw [Run.eq_of_compileValue_error h]
  · intro v after h
    obtain ⟨s, id, f, rfl, rfl, hentry⟩ := Run.entry_of_compileValue_ok h
    refine ⟨s, id, f, rfl, rfl, hentry, fun later others hclear hothers hparams => ?_⟩
    have hstale : (after.afterSteps later).isStale f = false := by
      rw [← Bool.not_eq_true, Machine.isStale_eq_true_iff]
      exact hparams
    refine Run.compileValue_of_entry ?_ hstale
    rw [LambdaKey.ofNames_eq_iff.mpr ⟨rfl, hothers⟩]
    exact Machine.get?_afterSteps hentry hclear hstale

end StringLambda
