import StringLambda.Invoke
import StringLambda.Proofs.Caching

namespace StringLambda

open Run

/-! Notes: what a machine remembers of sources, the next identities and the reports. Searches and
compilations that call nothing change notes only. -/

/-- The same state with other notes: which sources are remembered, each as what it compiles to,
which identity is next, and what has been reported. -/
structure Machine.SameButNotes (m n : Machine) : Prop where
  heap : n.heap = m.heap
  members : n.members = m.members
  globals : n.globals = m.globals
  host : n.host = m.host
  hosts : n.hosts = m.hosts
  scope : n.scope = m.scope
  coherent : m.Coherent → n.Coherent

namespace Machine.SameButNotes

variable {m n k : Machine}

theorem trans (h : m.SameButNotes n) (h' : n.SameButNotes k) : m.SameButNotes k where
  heap := h'.heap.trans h.heap
  members := h'.members.trans h.members
  globals := h'.globals.trans h.globals
  host := h'.host.trans h.host
  hosts := h'.hosts.trans h.hosts
  scope := h'.scope.trans h.scope
  coherent := h'.coherent ∘ h.coherent

theorem noted (m : Machine) (fresh : Nat) (events : List Event)
    (searches : List (ValueType × String)) :
    m.SameButNotes { m with fresh, events, searches } :=
  ⟨rfl, rfl, rfl, rfl, rfl, rfl, fun h => h.grow rfl fun _ hx => hx⟩

theorem under_scope (h : m.SameButNotes n) (scope : Option Ref) :
    { m with scope }.SameButNotes { n with scope } :=
  ⟨h.heap, h.members, h.globals, h.host, h.hosts, rfl, h.coherent⟩

theorem remember {key : LambdaKey} {f : Lambda}
    (hf : Lambda.ofSource (m.binds key.names) key.source = .ok f) :
    m.SameButNotes (m.remember key f) :=
  ⟨rfl, rfl, rfl, rfl, rfl, rfl, fun h => h.remember hf⟩

theorem registration?_eq (h : m.SameButNotes n) (lineage : List ValueType) (name : String) :
    n.registration? lineage name = m.registration? lineage name :=
  Machine.registration?_congr h.members _ _

end Machine.SameButNotes

/-- States that differ in their notes, but for the identity of the next function. -/
structure Machine.Agrees (m n : Machine) : Prop extends m.SameButNotes n where
  fresh : n.fresh = m.fresh
  known : m.Coherent

namespace Machine.Agrees

variable {m n k : Machine}

theorem refl (h : m.Coherent) : m.Agrees m := ⟨.noted m _ _ _, rfl, h⟩

theorem trans (h : m.Agrees n) (h' : n.Agrees k) : m.Agrees k :=
  ⟨h.toSameButNotes.trans h'.toSameButNotes, h'.fresh.trans h.fresh, h.known⟩

theorem symm (h : m.Agrees n) : n.Agrees m where
  heap := h.heap.symm
  members := h.members.symm
  globals := h.globals.symm
  host := h.host.symm
  hosts := h.hosts.symm
  scope := h.scope.symm
  coherent := fun _ => h.known
  fresh := h.fresh.symm
  known := h.coherent h.known

theorem under_scope (h : m.Agrees n) (scope : Option Ref) :
    { m with scope }.Agrees { n with scope } :=
  ⟨h.toSameButNotes.under_scope scope, h.fresh, h.known⟩

theorem step (h : m.Agrees n) (heap : Heap) (fresh : Nat) (searches : List (ValueType × String)) :
    { m with heap, fresh, searches }.Agrees
      { n with heap, fresh, searches := n.searches } :=
  ⟨⟨rfl, h.members, h.globals, h.host, h.hosts, h.scope, h.coherent⟩, rfl, h.known⟩

end Machine.Agrees

namespace Run

variable {α β : Type}

/-- The same value or the same stop, in states that agree. -/
inductive EndsAlike : EStateM.Result Stop Machine α → EStateM.Result Stop Machine α → Prop
  | ok (a : α) {m n : Machine} : m.Agrees n → EndsAlike (.ok a m) (.ok a n)
  | error (stop : Stop) {m n : Machine} : m.Agrees n → EndsAlike (.error stop m) (.error stop n)

namespace EndsAlike

variable {r r' r'' : EStateM.Result Stop Machine α}

theorem symm (h : EndsAlike r r') : EndsAlike r' r := by
  cases h with
  | ok a h => exact .ok a h.symm
  | error stop h => exact .error stop h.symm

theorem trans (h : EndsAlike r r') (h' : EndsAlike r' r'') : EndsAlike r r'' := by
  cases h with
  | ok a h =>
      cases h' with
      | ok _ h' => exact .ok a (h.trans h')
  | error stop h =>
      cases h' with
      | error _ h' => exact .error stop (h.trans h')

end EndsAlike

def Oblivious (act other : Run α) : Prop :=
  ∀ m n : Machine, m.Agrees n → EndsAlike (act m) (other n)

namespace Oblivious

variable {act other : Run α}

theorem pure (a : α) : Oblivious (Pure.pure a : Run α) (Pure.pure a) := fun _ _ h => .ok a h

theorem throw (stop : Stop) :
    Oblivious (MonadExcept.throw stop : Run α) (MonadExcept.throw stop) :=
  fun _ _ h => .error stop h

theorem bind {f g : α → Run β} (h : Oblivious act other) (hf : ∀ a, Oblivious (f a) (g a)) :
    Oblivious (act >>= f) (other >>= g) := by
  intro m n hmn
  have hends := h m n hmn
  simp only [Bind.bind, EStateM.bind]
  generalize act m = result at hends
  generalize other n = result' at hends
  cases hends with
  | ok a hagrees => exact hf a _ _ hagrees
  | error stop hagrees => exact .error stop hagrees

theorem located (h : Oblivious act other) (place : Option Position) :
    Oblivious (Run.located place act) (Run.located place other) := by
  intro m n hmn
  have hends := h m n hmn
  simp only [Run.located, mapStop]
  generalize act m = result at hends
  generalize other n = result' at hends
  cases hends with
  | ok a hagrees => exact .ok a hagrees
  | error stop hagrees => exact .error _ hagrees

theorem withScope (h : Oblivious act other) (scope : Option Ref) :
    Oblivious (Run.withScope scope act) (Run.withScope scope other) := by
  intro m n hmn
  have hends := h _ _ (hmn.under_scope scope)
  simp only [Run.withScope, ← hmn.scope]
  generalize act { m with scope } = result at hends
  generalize other { n with scope } = result' at hends
  cases hends with
  | ok a hagrees => exact .ok a (hagrees.under_scope n.scope)
  | error stop hagrees => exact .error stop (hagrees.under_scope n.scope)

theorem ofAct (act : Act α) : Oblivious (Run.ofAct act) (Run.ofAct act) := by
  intro m n hmn
  simp only [Run.ofAct, hmn.heap, hmn.fresh]
  cases act ⟨m.heap, m.fresh⟩ with
  | ok a s => exact .ok a (hmn.step s.heap s.fresh m.searches)
  | error stop s => exact .error stop (hmn.step s.heap s.fresh m.searches)

theorem modifies {f : Machine → Machine} (hf : ∀ m : Machine, m.Coherent → m.Agrees (f m)) :
    Oblivious (modify f : Run Unit) (modify f) := fun _ _ h =>
  .ok () (((hf _ h.known).symm.trans h).trans (hf _ (h.coherent h.known)))

theorem report (e : Event) : Oblivious (Run.report e) (Run.report e) :=
  modifies fun m hm => ⟨.noted m m.fresh (e :: m.events) m.searches, rfl, hm⟩

theorem reads {g : Machine → α} (hg : ∀ m n, m.Agrees n → g m = g n) :
    Oblivious (do return g (← get) : Run α) (do return g (← get)) := fun m n h => by
  have hread : EndsAlike (.ok (g m) m) (.ok (g n) n) := by
    rw [hg m n h]
    exact .ok _ h
  exact hread

end Oblivious

end Run

namespace Machine.Agrees

variable {m : Machine}

theorem noted (h : m.Coherent) (events : List Event) (searches : List (ValueType × String)) :
    m.Agrees { m with events, searches } :=
  ⟨.noted m m.fresh events searches, rfl, h⟩

theorem remember {key : LambdaKey} {f : Lambda} (h : m.Coherent)
    (hf : Lambda.ofSource (m.binds key.names) key.source = .ok f) : m.Agrees (m.remember key f) :=
  ⟨.remember hf, rfl, h⟩

end Machine.Agrees

section

variable {source : String} {names : List Key} {m : Machine} (hm : m.Coherent)
include hm

theorem Run.exists_compile_eq {f : Lambda}
    (hf : Lambda.ofSource (m.binds (.ofList names)) source = .ok f) :
    ∃ id n, m.Agrees n ∧ compile source names m = .ok (id, f) n := by
  rcases compile_cases source names m with ⟨id, g, hentry, hstale, h⟩ | ⟨-, ⟨g, hg, h⟩ | ⟨e, he, -⟩⟩
  · cases (hm.ofSource_eq hentry hstale).symm.trans hf
    exact ⟨id, _, .noted hm _ m.searches, h⟩
  · cases hg.symm.trans hf
    have hagrees : m.Agrees (m.remember (.ofNames source names) f) := .remember hm hg
    exact ⟨m.compiled, _, hagrees, h⟩
  · cases he.symm.trans hf

theorem Run.compile_eq_error {e : SourceError}
    (he : Lambda.ofSource (m.binds (.ofList names)) source = .error e) :
    compile source names m = .error (.fault (.source e)) m := by
  rcases compile_cases source names m with ⟨id, g, hentry, hstale, -⟩ | ⟨-, ⟨g, hg, -⟩ | ⟨d, hd, h⟩⟩
  · cases (hm.ofSource_eq hentry hstale).symm.trans he
  · cases hg.symm.trans he
  · cases hd.symm.trans he
    exact h

end

theorem exists_compileSpec_names (receiver : Value) (source : String) (scope : Option Ref)
    (m : Machine) : ∃ names, ∀ n : Machine, n.heap = m.heap →
      compileSpec receiver source scope n =
        mapStop (.refusing receiver source) (compile source names) n := by
  obtain ⟨names, hnames⟩ : ∃ names, ∀ n : Machine, n.heap = m.heap →
      Run.ofAct (scopeNames scope) n = .ok names n := by
    cases scope with
    | none => exact ⟨[], fun n _ => rfl⟩
    | some r => exact ⟨(m.heap.entries r).map (·.key), fun n hn => by rw [← hn]; rfl⟩
  exact ⟨names, fun n hn => bind_of_ok (hnames n hn) _⟩

theorem exists_compileSpec_eq {source : String} {f : Lambda} {m : Machine} (hm : m.Coherent)
    (hf : ∀ bound, Lambda.ofSource bound source = .ok f) (receiver : Value)
    (scope : Option Ref) :
    ∃ id n, m.Agrees n ∧ compileSpec receiver source scope m = .ok (id, f) n := by
  obtain ⟨names, hspec⟩ := exists_compileSpec_names receiver source scope m
  obtain ⟨id, n, hn, hcompile⟩ := Run.exists_compile_eq hm (hf (m.binds (.ofList names)))
  refine ⟨id, n, hn, ?_⟩
  rw [hspec m rfl, mapStop, hcompile]

/-- The lambda of a specification does not depend on the notes; its identity may. -/
theorem compileSpec_oblivious (receiver : Value) (source : String) (scope : Option Ref) :
    Run.Oblivious (do return (← compileSpec receiver source scope).2 : Run Lambda)
      (do return (← compileSpec receiver source scope).2) := by
  intro m n h
  obtain ⟨names, hspec⟩ := exists_compileSpec_names receiver source scope m
  have hbinds : n.binds (.ofList names) = m.binds (.ofList names) := by
    funext x
    simp only [Machine.binds, Machine.global?, h.globals]
  simp only [Bind.bind, EStateM.bind, hspec m rfl, hspec n h.heap, mapStop]
  cases hsource : Lambda.ofSource (m.binds (.ofList names)) source with
  | ok f =>
      obtain ⟨id, m', hm', hleft⟩ := Run.exists_compile_eq h.known hsource
      obtain ⟨id', n', hn', hright⟩ := Run.exists_compile_eq h.symm.known (hbinds ▸ hsource)
      rw [hleft, hright]
      exact .ok f ((hm'.symm.trans h).trans hn')
  | error e =>
      rw [Run.compile_eq_error h.known hsource,
        Run.compile_eq_error h.symm.known (hbinds ▸ hsource)]
      exact .error _ h

namespace Member

def CallsNothing (host : Host) (receiver : Value) (name : String) (m : Machine) : Prop :=
  ∀ call other : Caller, find call host receiver name m = find other host receiver name m

section

variable {host : Host} {receiver : Value} {name : String} {m n : Machine}

theorem callsNothing_of_search {search : Search} (h : m.hosts host = some search) :
    CallsNothing host receiver name m := by
  intro call other
  simp only [find, search?_bind, h]

theorem callsNothing_of_registration (h : ∀ reg,
      m.registration? receiver.type.lineage name = some reg → reg.isProperty = false) :
    CallsNothing host receiver name m := by
  intro call other
  have hstandard : ∀ n : Machine, n.members = m.members →
      findStandard call receiver name n = findStandard other receiver name n := by
    intro n hn
    have hreg := Machine.registration?_congr hn receiver.type.lineage name
    simp only [findStandard, registration?_bind, hreg]
    cases hfound : m.registration? receiver.type.lineage name with
    | none => rfl
    | some reg => simp only [ofRegistration, h reg hfound, Bool.false_eq_true, if_false]
  cases hsearch : m.hosts host with
  | some search => exact callsNothing_of_search hsearch call other
  | none =>
      simp only [find, search?_bind, hsearch]
      cases host with
      | standard | other => exact hstandard m rfl
      | keysOnly => rfl
      | tracing => exact hstandard { m with searches := _ } rfl

theorem exists_of_property {call : Caller} {reg : Registration} {found : Option Member}
    (hreg : m.registration? receiver.type.lineage name = some reg)
    (hproperty : reg.isProperty = true) (h : findStandard call receiver name m = .ok found n) :
    ∃ member, found = some member ∧ member.isCallable = false := by
  simp only [findStandard, registration?_bind, hreg, ofRegistration, hproperty, if_true, bind_assoc,
    pure_bind] at h
  obtain ⟨v, k, -, hread⟩ := exists_of_bind_eq_ok h
  cases hread
  exact ⟨_, rfl, rfl⟩

/-- A search that ends without a member, or with one that may be called, has called nothing. -/
theorem find_of_not_read {call : Caller} {found : Option Member}
    (h : find call host receiver name m = .ok found n)
    (hfound : ∀ member, found = some member → member.isCallable = true) (other : Caller) :
    find other host receiver name m = .ok found n := by
  -- A property is the one member that a search calls for, and it is not called again.
  cases hsearch : m.hosts host with
  | some search => exact (callsNothing_of_search hsearch other call).trans h
  | none =>
      by_cases hname : ∀ reg, m.registration? receiver.type.lineage name = some reg →
          reg.isProperty = false
      case pos => exact (callsNothing_of_registration hname other call).trans h
      case neg =>
        obtain ⟨reg, hreg, hproperty⟩ : ∃ reg,
            m.registration? receiver.type.lineage name = some reg ∧ reg.isProperty = true := by
          simpa using hname
        have hread : ∀ k : Machine, k.members = m.members →
            findStandard call receiver name k ≠ .ok found n := by
          intro k hk hstandard
          have hreg := (Machine.registration?_congr hk receiver.type.lineage name).trans hreg
          obtain ⟨member, hsome, hmember⟩ := exists_of_property hreg hproperty hstandard
          exact absurd (hfound member hsome) (by simp [hmember])
        have hfind : findBy call host receiver name m = .ok found n := by
          simpa only [find, search?_bind, hsearch] using h
        cases host with
        | keysOnly => exact h
        | standard | other => exact absurd hfind (hread m rfl)
        | tracing => exact absurd hfind (hread { m with searches := _ } rfl)

end

end Member

section

variable {host : Host} {m : Machine} (hkeys : host ≠ .keysOnly) (hsearch : m.hosts host = none)
include hkeys hsearch

theorem Member.exists_find_eq (call : Caller) (receiver : Value) (name : String) :
    ∃ n, m.SameButNotes n ∧ n.fresh = m.fresh ∧
      find call host receiver name m = findStandard call receiver name n := by
  have hfind : find call host receiver name m = findBy call host receiver name m := by
    simp only [find, search?_bind, hsearch]
  rw [hfind]
  cases host with
  | standard | other => exact ⟨m, .noted m _ _ _, rfl, rfl⟩
  | keysOnly => exact absurd rfl hkeys
  | tracing =>
      let searched : Machine := { m with searches := (receiver.type, name) :: m.searches }
      exact ⟨searched, .noted m m.fresh m.events searched.searches, rfl, rfl⟩

theorem Member.exists_find_bound (call : Caller) (receiver : Value) {function : Value}
    {name : String}
    (hreg : m.registration? receiver.type.lineage name = some ⟨function, false⟩)
    (hfunction : function.isCallable = true) :
    ∃ id n, m.SameButNotes n ∧ n.fresh = m.fresh + 1 ∧
      find call host receiver name m = .ok (some ⟨name, .bound id function receiver, true⟩) n := by
  obtain ⟨n, hn, hfresh, hfind⟩ := Member.exists_find_eq hkeys hsearch call receiver name
  refine ⟨n.fresh, _, hn.trans (.noted n (n.fresh + 1) n.events n.searches),
    congrArg (· + 1) hfresh, hfind.trans ?_⟩
  simp only [findStandard, registration?_bind, (hn.registration?_eq _ _).trans hreg,
    ofRegistration, hfunction, Bool.false_eq_true, if_false, if_true]
  rfl

end

section

variable {m : Machine} (hkeys : m.host ≠ .keysOnly) (hsearch : m.hosts m.host = none)
include hkeys hsearch

theorem exists_invoke_bound (call : Caller) (receiver : Value) {function : Value} {name : String}
    (hreg : m.registration? receiver.type.lineage name = some ⟨function, false⟩)
    (hfunction : function.isCallable = true) (args : List Value) (scope : Option Ref) :
    ∃ id n, m.SameButNotes n ∧ n.fresh = m.fresh + 1 ∧
      invoke call receiver (.text name) args scope none m =
        withScope scope (call .plain (.bound id function receiver) args) n := by
  obtain ⟨id, n, hn, hfresh, hfind⟩ :=
    Member.exists_find_bound hkeys hsearch call receiver hreg hfunction
  let reported : Machine := { n with events := .invokingMember name :: n.events }
  refine ⟨id, reported, hn.trans (.noted n n.fresh reported.events n.searches), hfresh, ?_⟩
  have htext : invoke call receiver (.text name) args scope none m =
      invokeText call receiver name args scope m.host m := rfl
  exact htext.trans (bind_of_ok hfind _)

end

end StringLambda
