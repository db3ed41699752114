import StringLambda.Proofs.Evaluation.Notes
import StringLambda.Proofs.Evaluation.Operations

namespace StringLambda

/-! Runs that have nothing to do with the scope for callbacks and with hosts. -/

namespace Run

variable {α β : Type} {act : Run α}

def onState (f : Machine → Machine) :
    EStateM.Result Stop Machine α → EStateM.Result Stop Machine α
  | .ok a m => .ok a (f m)
  | .error e m => .error e (f m)

def endOf : EStateM.Result Stop Machine α → Machine
  | .ok _ m => m
  | .error _ m => m

theorem onState_congr {f g : Machine → Machine} {r : EStateM.Result Stop Machine α}
    (h : f (endOf r) = g (endOf r)) : onState f r = onState g r := by
  cases r with
  | ok a m => exact congrArg (EStateM.Result.ok a) h
  | error e m => exact congrArg (EStateM.Result.error e) h

theorem withScope_eq {act other : Run α} {m : Machine} {scope : Option Ref}
    (h : act { m with scope } = onState (fun n => { n with scope }) (other m))
    (hscope : (endOf (other m)).scope = m.scope) : withScope scope act m = other m := by
  simp only [withScope, h]
  cases hm : other m <;> rw [hm] at hscope <;> simp only [onState, ← hscope, endOf]

/-- What no run of a program changes for good. -/
structure SameSetting (m n : Machine) : Prop where
  members : m.members = n.members
  globals : m.globals = n.globals
  hosts : m.hosts = n.hosts
  host : m.host = n.host
  scope : m.scope = n.scope

theorem SameSetting.trans {m n k : Machine} (h : SameSetting m n) (h' : SameSetting n k) :
    SameSetting m k :=
  ⟨h.members.trans h'.members, h.globals.trans h'.globals, h.hosts.trans h'.hosts,
    h.host.trans h'.host, h.scope.trans h'.scope⟩

/-- A run that neither sees nor changes the scope for callbacks and the hosts, and that leaves what
is registered as it is. -/
structure Plain (act : Run α) : Prop where
  blind : ∀ m scope host hosts,
    act { m with scope, host, hosts } = onState (fun n => { n with scope, host, hosts }) (act m)
  keeps : ∀ m, SameSetting (endOf (act m)) m

namespace Plain

theorem under_scope (h : act.Plain) (m : Machine) (scope : Option Ref) :
    act { m with scope } = onState (fun n => { n with scope }) (act m) := by
  have hscope := h.blind m scope m.host m.hosts
  exact hscope.trans (onState_congr (by rw [← (h.keeps m).host, ← (h.keeps m).hosts]))

theorem under_hosts (h : act.Plain) (m : Machine) (host : Host) (hosts : Host → Option Search) :
    act { m with host, hosts } = onState (fun n => { n with host, hosts }) (act m) := by
  have hhosts := h.blind m m.scope host hosts
  exact hhosts.trans (onState_congr (by rw [← (h.keeps m).scope]))

theorem pure (a : α) : Plain (Pure.pure a : Run α) :=
  ⟨fun _ _ _ _ => rfl, fun _ => ⟨rfl, rfl, rfl, rfl, rfl⟩⟩

theorem throw (stop : Stop) : Plain (MonadExcept.throw stop : Run α) :=
  ⟨fun _ _ _ _ => rfl, fun _ => ⟨rfl, rfl, rfl, rfl, rfl⟩⟩

theorem bind {f : α → Run β} (h : act.Plain) (hf : ∀ a, (f a).Plain) : Plain (act >>= f) := by
  refine ⟨fun m scope host hosts => ?_, fun m => ?_⟩
  · have hact := h.blind m scope host hosts
    simp only [Bind.bind, EStateM.bind, hact]
    cases act m with
    | ok a n => exact (hf a).blind n scope host hosts
    | error e n => rfl
  · have hact := h.keeps m
    simp only [Bind.bind, EStateM.bind]
    cases hm : act m with
    | ok a n =>
        rw [hm] at hact
        exact ((hf a).keeps n).trans hact
    | error e n =>
        rw [hm] at hact
        exact hact

theorem ofAct (act : Act α) : Plain (Run.ofAct act) := by
  refine ⟨fun m scope host hosts => ?_, fun m => ?_⟩
  · simp only [Run.ofAct]
    cases act ⟨m.heap, m.fresh⟩ <;> rfl
  · simp only [Run.ofAct]
    cases act ⟨m.heap, m.fresh⟩ <;> exact ⟨rfl, rfl, rfl, rfl, rfl⟩

theorem modifies {f : Machine → Machine}
    (h : ∀ m scope host hosts,
      f { m with scope, host, hosts } = { f m with scope, host, hosts })
    (hkeeps : ∀ m, SameSetting (f m) m) : Plain (modify f : Run Unit) :=
  ⟨fun m scope host hosts => congrArg (EStateM.Result.ok ()) (h m scope host hosts), hkeeps⟩

theorem lift (act : Act α) : Plain (liftM act : Run α) := ofAct act

theorem freshId : Plain Run.freshId := ofAct Act.freshId

theorem compiledId : Plain Run.compiledId :=
  ⟨fun _ _ _ _ => rfl, fun _ => ⟨rfl, rfl, rfl, rfl, rfl⟩⟩

theorem newList (items : List Value) : Plain (Run.newList items) := ofAct (Act.newList items)

theorem mapStop (h : act.Plain) (f : Stop → Stop) : Plain (Run.mapStop f act) := by
  refine ⟨fun m scope host hosts => ?_, fun m => ?_⟩
  · simp only [Run.mapStop, h.blind m scope host hosts]
    cases act m <;> rfl
  · have hact := h.keeps m
    simp only [Run.mapStop]
    cases hm : act m <;> rw [hm] at hact <;> exact hact

theorem report (e : Event) : Plain (Run.report e) :=
  modifies (fun _ _ _ _ => rfl) fun _ => ⟨rfl, rfl, rfl, rfl, rfl⟩

theorem get_bind {f : Machine → Run α} (h : ∀ m scope host hosts,
      f { m with scope, host, hosts } = f m)
    (hf : ∀ m, (f m).Plain) : Plain (get >>= f) := by
  refine ⟨fun m scope host hosts => ?_, fun m => (hf m).keeps m⟩
  rw [Run.get_bind, Run.get_bind, h]
  exact (hf m).blind m scope host hosts

theorem registration? (lineage : List ValueType) (name : String) :
    Plain (Run.registration? lineage name) :=
  get_bind (fun _ _ _ _ => rfl) fun _ => .pure _

theorem global? (name : String) : Plain (Run.global? name) :=
  get_bind (fun _ _ _ _ => rfl) fun _ => .pure _

theorem compileAnew (key : LambdaKey) : Plain (Run.compileAnew key) := by
  refine get_bind (fun _ _ _ _ => rfl) fun m => ?_
  split
  next => exact ofAct (Act.fault _)
  next =>
    refine .bind .compiledId fun id => .bind (modifies ?_ ?_) fun _ => .bind (.report _) fun _ =>
      .pure _
    · exact fun _ _ _ _ => rfl
    · exact fun _ => ⟨rfl, rfl, rfl, rfl, rfl⟩

theorem compile (source : String) (names : List Key) : Plain (Run.compile source names) := by
  refine get_bind (fun _ _ _ _ => rfl) fun m => ?_
  split
  next =>
    split
    next => exact compileAnew _
    next => exact .bind (.report _) fun _ => .pure _
  next => exact compileAnew _

theorem compileSpec (receiver : Value) (spec : String) (scope : Option Ref) :
    Plain (StringLambda.compileSpec receiver spec scope) := by
  exact .bind (.lift _) fun names => .mapStop (.compile _ _) _

end Plain

/-- A plain run that no compile error ends and that does not see the notes. -/
structure Tame (act : Run α) : Prop extends Plain act where
  compileFree : CompileFree act
  oblivious : Oblivious act act

namespace Tame

theorem pure (a : α) : Tame (Pure.pure a : Run α) := ⟨.pure a, .pure a, .pure a⟩

theorem unfinished : Tame (throw .unfinished : Run α) := ⟨.throw _, .throw rfl, .throw _⟩

theorem bind {f : α → Run β} (h : act.Tame) (hf : ∀ a, (f a).Tame) : Tame (act >>= f) :=
  ⟨.bind h.toPlain fun a => (hf a).toPlain, .bind h.compileFree fun a => (hf a).compileFree,
    .bind h.oblivious fun a => (hf a).oblivious⟩

theorem lift {act : Act α} (h : CompileFree act) : Tame (liftM act : Run α) := by
  refine ⟨.lift act, fun m => ?_, .ofAct act⟩
  have hstop := h ⟨m.heap, m.fresh⟩
  simp only [liftM, monadLift, MonadLift.monadLift, Run.ofAct]
  cases hact : act ⟨m.heap, m.fresh⟩ <;> rw [hact] at hstop <;> exact hstop

theorem invocation (issue : InvocationIssue) (receiver spec : Value) :
    Tame (Run.fault (.invocation issue receiver spec) : Run α) :=
  lift fun _ => rfl

theorem raise (issue : EvalIssue) : Tame (Run.raise issue : Run α) := lift (.raise issue)

theorem defect (d : Defect) : Tame (Run.defect d : Run α) := lift (.defect d)

theorem heap : Tame Run.heap := lift .heap

theorem freshId : Tame Run.freshId := lift .freshId

theorem newList (items : List Value) : Tame (Run.newList items) := lift (.newList items)

theorem report (e : Event) : Tame (Run.report e) := ⟨.report e, fun _ => rfl, .report e⟩

theorem registration? (lineage : List ValueType) (name : String) :
    Tame (Run.registration? lineage name) :=
  ⟨.registration? lineage name, fun _ => rfl,
    .reads fun _ _ h => (h.registration?_eq lineage name).symm⟩

theorem global? (name : String) : Tame (Run.global? name) :=
  ⟨.global? name, fun _ => rfl,
    .reads fun m n h => by simp only [Machine.global?, h.globals]⟩

end Tame

end Run

theorem compileSpec_compileFree (receiver : Value) (spec : String) (scope : Option Ref) :
    CompileFree (compileSpec receiver spec scope) := by
  refine .bind (Run.Tame.lift (scopeNames_compileFree scope)).compileFree fun names m => ?_
  simp only [Run.mapStop]
  rcases Run.compile_cases spec names m with ⟨id, f, -, -, h⟩ | ⟨-, ⟨f, -, h⟩ | ⟨e, -, h⟩⟩ <;>
    rw [h] <;> rfl

open Run

theorem Frame.get_tame (frame : Frame) (name : String) : (frame.get name).Tame := by
  unfold Frame.get
  split
  next => exact .pure _
  next =>
    refine .bind (.lift (scopeEntries_compileFree _)) fun entries => ?_
    split
    next => exact .pure _
    next =>
      refine .bind (.global? _) fun v => ?_
      cases v with
      | some v => exact .pure _
      | none => exact .raise _

theorem evalLeaf_tame (frame : Frame) (kind : LeafKind) (text : String) :
    (evalLeaf frame kind text).Tame := by
  cases kind with
  | number => exact .lift (numberValue_compileFree _)
  | string | true | false | null | undefined => exact .pure _
  | ident => exact Frame.get_tame _ _
  | _ => exact .raise _

end StringLambda
