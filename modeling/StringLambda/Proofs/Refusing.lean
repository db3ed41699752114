import StringLambda.Proofs.Evaluation.Setting

namespace StringLambda

open Run

/-! Texts that do not compile. No compile error leaves an invocation: such a text, at whatever depth
it is met, is refused with the receiver that it was to be applied to, and nothing around it changes
the refusal. -/

/-- What has been put in the place of hosts raises no compile errors. -/
def Machine.SearchesSoundly (m : Machine) : Prop :=
  ∀ k search, m.hosts k = some search → ∀ receiver name, CompileFree (search receiver name)

/-- A run that keeps the setting, and that no compile error ends unless one comes from a search. -/
structure Run.Sound {α : Type} (act : Run α) : Prop where
  keeps : act.KeepsSetting
  stops : ∀ m, m.SearchesSoundly → (stopOf (act m)).any Stop.isCompileError = false

namespace Run.Sound

variable {α β : Type} {act : Run α}

theorem bind {f : α → Run β} (h : act.Sound) (hf : ∀ a, (f a).Sound) : (act >>= f).Sound := by
  refine ⟨h.keeps.bind fun a => (hf a).keeps, fun m hm => ?_⟩
  have hkeeps := h.keeps m
  have hstop := h.stops m hm
  simp only [Bind.bind, EStateM.bind]
  cases hact : act m with
  | ok a n =>
      rw [hact] at hkeeps
      exact (hf a).stops n fun k search hk => hm k search (by rw [← hk, ← hkeeps.hosts, endOf])
  | error stop n =>
      rw [hact] at hstop
      exact hstop

theorem located (h : act.Sound) (place : Option Position) : (Run.located place act).Sound := by
  refine ⟨h.keeps.located place, fun m hm => ?_⟩
  have hstop := h.stops m hm
  simp only [Run.located, mapStop]
  cases hact : act m with
  | ok a n => rfl
  | error stop n =>
      rw [hact] at hstop
      exact (stop.isCompileError_located place).trans hstop

theorem withScope (h : act.Sound) (scope : Option Ref) : (Run.withScope scope act).Sound := by
  refine ⟨h.keeps.withScope scope, fun m hm => ?_⟩
  have hstop := h.stops { m with scope } hm
  simp only [Run.withScope]
  cases hact : act { m with scope } <;> rw [hact] at hstop <;> exact hstop

end Run.Sound

def sound : Congruence where
  rel act other := act = other ∧ act.Sound
  tame h := ⟨rfl, h.keeps, fun m _ => h.compileFree m⟩
  bind h hf := by
    refine ⟨?_, h.2.bind fun a => (hf a).2⟩
    rw [h.1, funext fun a => (hf a).1]
  located h place := ⟨by rw [h.1], h.2.located place⟩

theorem sound_keepsScopes : sound.KeepsScopes :=
  fun scope _ _ h => ⟨by rw [h.1], h.2.withScope scope⟩

theorem sound_reading {α : Type} (g : Machine → α) :
    sound.rel (do return g (← get)) (do return g (← get)) :=
  ⟨rfl, (settled_reading g).2, fun _ _ => rfl⟩

theorem sound_searches (k : Host) : sound.Searches k := by
  intro call other receiver name h
  have hsettled := Stepwise.searches (fun act => settled_plain (.ofAct act))
    (settled_reading _) receiver name
    (show settled.rel (Member.findBy call k receiver name) (Member.findBy other k receiver name)
      from ⟨h.1, h.2.keeps⟩)
  refine ⟨hsettled.1, hsettled.2, fun m hm => ?_⟩
  simp only [Member.find, search?_bind]
  cases hk : m.hosts k with
  | none => exact h.2.stops m hm
  | some search =>
      exact (Tame.bind (.lift (hm k search hk receiver name)) fun found => .pure _).compileFree m

theorem sound_asks (host : Option Host) : sound.Asks host :=
  Stepwise.asks (sound_reading _) sound_searches host

theorem sound_compiles {call other : Caller} (h : sound.Calls call other) :
    sound.Compiles call other :=
  Stepwise.compiles (fun receiver spec scope =>
    ⟨rfl, (settled_plain (.compileSpec receiver spec scope)).2,
      fun m _ => compileSpec_compileFree receiver spec scope m⟩) h

theorem call_sound (depth : Nat) : sound.Calls (call depth) (call depth) :=
  call_rel sound_keepsScopes (sound_reading _) sound_asks (fun _ => sound_compiles) depth

theorem invoke_sound (depth : Nat) (receiver spec : Value) (args : List Value) (scope : Option Ref)
    (host : Option Host) : (invoke (call depth) receiver spec args scope host).Sound :=
  (invoke_rel sound_keepsScopes (call_sound depth) (sound_compiles (call_sound depth))
    receiver spec args scope (sound_asks host)).2

/-- What is done with a text that does not compile, instead of a refusal. -/
abbrev Fallback := Value → String → SourceError → Run Value

/-- The refusal of a text, with the receiver that it was to be applied to and its compile error. -/
def Stop.refusal (receiver : Value) (spec : String) (e : SourceError) : Stop :=
  .fault (.invocation (.neither receiver.type e) receiver (.text spec))

/-- Compiles a source, and gives the error if it does not compile. -/
def Run.attempt (source : String) (names : List Key) : Run (Except SourceError (Nat × Lambda)) :=
  fun m =>
    match Run.compile source names m with
    | .ok entry n => .ok (.ok entry) n
    | .error (.fault (.source e)) n => .ok (.error e) n
    | .error stop n => .error stop n

def invokeTextOr (instead : Fallback) (call : Caller) (receiver : Value) (spec : String)
    (args : List Value) (scope : Option Ref) (host : Host) : Run Value := do
  match ← Member.find call host receiver spec with
  | some member => invokeMember call receiver member args scope
  | none =>
    match ← Run.attempt spec (← scopeNames scope) with
    | .ok (id, f) =>
      Run.report (.invokingLambda f.form spec)
      call ⟨scope, some host⟩ (.lambda id f) (receiver :: args)
    | .error e => instead receiver spec e

def invokeOr (instead : Fallback) (call : Caller) (receiver spec : Value) (args : List Value)
    (scope : Option Ref) (host : Option Host) : Run Value := do
  if spec.isCallable then
    Run.report (.invokingCallable spec)
    call .plain spec (receiver :: args)
  else
    match spec with
    | .text s => invokeTextOr instead call receiver s args scope (← Run.hostOr host)
    | _ => Run.fault (.invocation (.unsuitable spec.type) receiver spec)

/-- Calls a value, and does something else with every text that does not compile. -/
def callOr (instead : Fallback) : Nat → Caller
  | 0 => fun _ _ _ => throw .unfinished
  | depth + 1 =>
    callOnce (fun frame body => Run.withScope frame.scope (eval (callOr instead depth) frame body))
      (callOr instead depth)
      (fun callback item args => do
        invokeOr instead (callOr instead depth) item callback args (← Run.scope) none)
      depth

/-- Two outcomes are the same, or the one is the refusal of a text that does not compile. If the
other run has to end at that text, then it ends so in the same state. -/
inductive UpToRefusal {α : Type} (instead : Fallback) :
    EStateM.Result Stop Machine α → EStateM.Result Stop Machine α → Prop
  | same (result : EStateM.Result Stop Machine α) : UpToRefusal instead result result
  | refused {receiver : Value} {spec : String} {e : SourceError} {bound : String → Bool}
      {m : Machine} {other : EStateM.Result Stop Machine α}
      (he : Lambda.ofSource bound spec = .error e)
      (hother : ∀ stop, (∀ place, stop.located place = stop) →
        instead receiver spec e = throw stop → other = .error stop m) :
      UpToRefusal instead (.error (.refusal receiver spec e) m) other

/-- The outcomes of two runs from one state, up to the refusal of a text. -/
def RefusesOr (instead : Fallback) {α : Type} (act other : Run α) : Prop :=
  ∀ m, UpToRefusal instead (act m) (other m)

namespace RefusesOr

variable {instead : Fallback} {α β : Type} {act other : Run α}

theorem refl (act : Run α) : RefusesOr instead act act := fun m => .same (act m)

theorem bind {f g : α → Run β} (h : RefusesOr instead act other)
    (hf : ∀ a, RefusesOr instead (f a) (g a)) : RefusesOr instead (act >>= f) (other >>= g) := by
  intro m
  have hm := h m
  simp only [Bind.bind, EStateM.bind]
  generalize act m = result at hm
  generalize other m = result' at hm
  cases hm with
  | same =>
      cases result with
      | ok a n => exact hf a n
      | error stop n => exact .same _
  | refused he hother =>
      exact .refused he fun stop hstop hends => by rw [hother stop hstop hends]

theorem located (h : RefusesOr instead act other) (place : Option Position) :
    RefusesOr instead (Run.located place act) (Run.located place other) := by
  intro m
  have hm := h m
  simp only [Run.located, mapStop]
  generalize act m = result at hm
  generalize other m = result' at hm
  cases hm with
  | same => exact .same _
  | refused he hother =>
      refine .refused he fun stop hstop hends => ?_
      rw [hother stop hstop hends]
      exact congrArg (EStateM.Result.error · _) (hstop place)

theorem withScope (h : RefusesOr instead act other) (scope : Option Ref) :
    RefusesOr instead (Run.withScope scope act) (Run.withScope scope other) := by
  intro m
  have hm := h { m with scope }
  simp only [Run.withScope]
  generalize act { m with scope } = result at hm
  generalize other { m with scope } = result' at hm
  cases hm with
  | same => exact .same _
  | refused he hother =>
      exact .refused he fun stop hstop hends => by rw [hother stop hstop hends]

end RefusesOr

def refusing (instead : Fallback) : Congruence where
  rel := RefusesOr instead
  tame _ := .refl _
  bind := .bind
  located := .located

section

variable {instead : Fallback}

theorem refusing_keepsScopes : (refusing instead).KeepsScopes :=
  fun scope _ _ h => h.withScope scope

theorem refusing_searches (k : Host) : (refusing instead).Searches k :=
  Stepwise.searches (C := (refusing instead).toStepwise) (fun _ => .refl _) (RefusesOr.refl _)

theorem refusing_asks (host : Option Host) : (refusing instead).Asks host :=
  Stepwise.asks (RefusesOr.refl _) refusing_searches host

theorem attempt_refuses {receiver : Value} {spec : String} {f : Nat × Lambda → Run Value}
    {g : Except SourceError (Nat × Lambda) → Run Value}
    (hok : ∀ entry, RefusesOr instead (f entry) (g (.ok entry)))
    (herror : ∀ e, g (.error e) = instead receiver spec e) (names : List Key) :
    RefusesOr instead (mapStop (.refusing receiver spec) (Run.compile spec names) >>= f)
      (Run.attempt spec names >>= g) := by
  intro m
  simp only [Bind.bind, EStateM.bind, mapStop, Run.attempt]
  -- The lambda is remembered or new; the only error is that of the source.
  rcases Run.compile_cases spec names m with ⟨id, k, -, -, hcompile⟩ |
    ⟨-, ⟨k, -, hcompile⟩ | ⟨e, he, hcompile⟩⟩
  · rw [hcompile]
    exact hok _ _
  · rw [hcompile]
    exact hok _ _
  · rw [hcompile]
    refine .refused he fun stop _ hends => ?_
    exact congrFun ((herror e).trans hends) m

variable {call other : Caller} (h : (refusing instead).Calls call other)
include h

theorem invokeText_refuses (receiver : Value) (spec : String) (args : List Value)
    (scope : Option Ref) (host : Host) :
    RefusesOr instead (invokeText call receiver spec args scope host)
      (invokeTextOr instead other receiver spec args scope host) := by
  refine RefusesOr.bind (Member.find_rel h (refusing_searches host) _ _) fun member => ?_
  cases member with
  | some member => exact invokeMember_rel refusing_keepsScopes h _ _ _ _
  | none =>
      simp only [compileSpec, bind_assoc]
      refine RefusesOr.bind (.refl _) fun names => ?_
      refine attempt_refuses (fun entry => ?_) (fun _ => rfl) names
      exact RefusesOr.bind (.refl _) fun _ => h _ _ _

theorem invoke_refuses (receiver spec : Value) (args : List Value) (scope : Option Ref)
    (host : Option Host) :
    RefusesOr instead (invoke call receiver spec args scope host)
      (invokeOr instead other receiver spec args scope host) := by
  unfold invoke invokeOr
  split
  next => exact RefusesOr.bind (.refl _) fun _ => h _ _ _
  next =>
    cases spec with
    | text s =>
        exact RefusesOr.bind (.refl _) fun host => invokeText_refuses h _ _ _ _ _
    | _ => exact .refl _

end

theorem call_refuses (instead : Fallback) (depth : Nat) :
    (refusing instead).Calls (call depth) (callOr instead depth) := by
  induction depth with
  | zero => exact fun context callee args => .refl _
  | succ depth ih =>
      refine callOnce_rel (fun frame body => ?_) ih (fun callback item args => ?_) depth
      · exact refusing_keepsScopes _ (eval_rel ih (refusing_asks _) body)
      · exact RefusesOr.bind (.refl _) fun scope => invoke_refuses ih _ _ _ _ _

/-- From a state, no compile error ends the run. With another run, which does something else with
the texts that do not compile, it agrees up to the refusal of a text. -/
structure Surfaces (instead : Fallback) {α : Type} (m : Machine) (act other : Run α) : Prop where
  stops : (stopOf (act m)).any Stop.isCompileError = false
  refused : UpToRefusal instead (act m) (other m)

/-- Neither an invocation nor a combinator ends with a compile error. Whatever other calls do with
the texts that do not compile, they end the same, or the first such text, at whatever depth, ends
the invocation with the refusal of this text. -/
theorem compile_errors_refused {m : Machine} (hm : m.SearchesSoundly) (depth : Nat)
    (receiver spec : Value) (args : List Value) (scope : Option Ref) (host : Option Host)
    (instead : Fallback) :
    Surfaces instead m (invoke (call depth) receiver spec args scope host)
        (invokeOr instead (callOr instead depth) receiver spec args scope host) ∧
      Surfaces instead m (thrush depth receiver spec args scope)
        (invokeOr instead (callOr instead depth) receiver spec args scope none) ∧
      Surfaces instead m (kestrel depth receiver spec args scope) (do
        let _ ← invokeOr instead (callOr instead depth) receiver spec args scope none
        return receiver) := by
  have hsound := invoke_sound depth receiver spec args scope
  have hrefuses : ∀ host, RefusesOr instead (invoke (call depth) receiver spec args scope host)
      (invokeOr instead (callOr instead depth) receiver spec args scope host) :=
    fun host => invoke_refuses (call_refuses instead depth) receiver spec args scope host
  refine ⟨⟨(hsound host).stops m hm, hrefuses host m⟩, ⟨(hsound none).stops m hm, hrefuses none m⟩,
    ⟨?_, ?_⟩⟩
  · exact ((hsound none).bind fun _ => (sound.pure receiver).2).stops m hm
  · exact (hrefuses none).bind (fun _ => .refl _) m

/-- A callback within the body of a specification that does not compile: the one run is refused, and
the other one gives up. -/
theorem compile_errors_refused_callback :
    let giveUp : Fallback := fun _ _ _ => throw .unfinished
    let act := invoke (call 9) .null (.text "x -> [1].map('y ->')") [] none none
    let other := invokeOr giveUp (callOr giveUp 9) .null (.text "x -> [1].map('y ->')") [] none none
    Surfaces giveUp .initial act other ∧
      (stopOf (act .initial)).any Stop.isAccounted = true ∧
      (stopOf (other .initial)).any Stop.isAccounted = false := by
  have hm : Machine.initial.SearchesSoundly := fun k search hk => nomatch hk
  refine ⟨(compile_errors_refused hm 9 _ _ _ _ _ _).1, ?_, ?_⟩ <;> decide +kernel

end StringLambda
