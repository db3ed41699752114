import StringLambda.Act
import StringLambda.Lambda.Cache
import StringLambda.Lambda.NameSet

namespace StringLambda

/-! The state that runs share, and the runs over it. An error keeps the state as it was when the
error arose. -/

/-- A member registered for a type. A property is read by calling its function on the receiver. -/
structure Registration where
  function : Value
  isProperty : Bool

/-- A source under the outer names that its expression does not take as parameters. -/
structure LambdaKey where
  source : String
  names : NameSet Key
deriving DecidableEq

namespace LambdaKey

def ofNames (source : String) (names : List Key) : LambdaKey :=
  ⟨source, .ofList names⟩

theorem ofNames_eq_iff {source other : String} {names others : List Key} :
    ofNames source names = ofNames other others ↔
      source = other ∧ ∀ x, x ∈ names ↔ x ∈ others := by
  simp [ofNames, NameSet.ofList_eq_iff]

end LambdaKey

/-- What a run reports on the way. -/
inductive Event where
  | cacheHit (source : String)
  | compiled (source : String) (form : Form) (params : List String)
  | invokingCallable (callable : Value)
  | invokingMember (name : String)
  | readingMember (name : String)
  | invokingLambda (form : Form) (source : String)

/-- How a host of the embedding program finds a member: the value of a name on a receiver, and
whether it may be called. -/
abbrev Search := Value → String → Act (Option (Value × Bool))

structure Machine where
  heap : Heap
  /-- The registered members, the latest registration first. -/
  members : List ((ValueType × String) × Registration)
  globals : List (String × Value)
  cache : Cache LambdaKey (Nat × Lambda)
  /-- The host where no other is given. -/
  host : Host
  /-- What the embedding program has put in the place of a host. -/
  hosts : Host → Option Search
  /-- The scope of the innermost activation, for callbacks that members run. -/
  scope : Option Ref
  /-- The identity of the next function that is made in a run. -/
  fresh : Nat
  /-- The identity of the next lambda that is compiled. -/
  compiled : Nat
  /-- The reports so far, the latest first. -/
  events : List Event
  /-- The searches of the tracing host, the latest first. -/
  searches : List (ValueType × String)

abbrev Run := EStateM Stop Machine

namespace Run

variable {α : Type}

def ofAct (act : Act α) : Run α := fun m =>
  match act ⟨m.heap, m.fresh⟩ with
  | .ok a s => .ok a { m with heap := s.heap, fresh := s.fresh }
  | .error e s => .error e { m with heap := s.heap, fresh := s.fresh }

instance : MonadLift Act Run := ⟨ofAct⟩

def fault (f : Fault) : Run α :=
  Act.fault f

def raise (issue : EvalIssue) : Run α :=
  Act.raise issue

def defect (d : Defect) : Run α :=
  Act.defect d

def ofDefect (x : Except Defect α) : Run α :=
  Act.ofDefect x

def heap : Run Heap :=
  Act.heap

def alloc (c : Cell) : Run Ref :=
  Act.alloc c

def newList (items : List Value) : Run Value :=
  Act.newList items

def newTuple (items : List Value) : Run Value :=
  Act.newTuple items

def freshId : Run Nat :=
  Act.freshId

/-- The identity of a lambda that is compiled, which is told apart from those of other functions. -/
def compiledId : Run Nat := fun m =>
  .ok m.compiled { m with compiled := m.compiled + 1 }

variable {β : Type} {act other : Run α} {m n : Machine}

theorem get_bind (act : Machine → Run α) (m : Machine) : (get >>= act) m = act m m := rfl

theorem bind_of_ok {a : α} (h : act m = .ok a n) (f : α → Run β) : (act >>= f) m = f a n := by
  simp only [Bind.bind, EStateM.bind, h]

theorem bind_of_error {stop : Stop} (h : act m = .error stop n) (f : α → Run β) :
    (act >>= f) m = .error stop n := by
  simp only [Bind.bind, EStateM.bind, h]

theorem bind_congr_at (h : act m = other n) (f : α → Run β) :
    (act >>= f) m = (other >>= f) n := by
  simp only [Bind.bind, EStateM.bind, h]

theorem exists_of_ofAct_eq_ok {act : Act α} {a : α} (h : ofAct act m = .ok a n) :
    ∃ s, act ⟨m.heap, m.fresh⟩ = .ok a s ∧ n = { m with heap := s.heap, fresh := s.fresh } := by
  simp only [ofAct] at h
  cases hact : act ⟨m.heap, m.fresh⟩ with
  | ok b s =>
      rw [hact] at h
      cases h
      exact ⟨s, rfl, rfl⟩
  | error stop s =>
      rw [hact] at h
      cases h

/-- Runs under another scope; the scope of before comes back, also after an error. -/
def withScope (scope : Option Ref) (act : Run α) : Run α := fun m =>
  match act { m with scope } with
  | .ok a m' => .ok a { m' with scope := m.scope }
  | .error e m' => .error e { m' with scope := m.scope }

def mapStop (f : Stop → Stop) (act : Run α) : Run α := fun m =>
  match act m with
  | .ok a m' => .ok a m'
  | .error e m' => .error (f e) m'

/-- Gives the place to an evaluation error that has none yet. -/
def located (place : Option Position) (act : Run α) : Run α :=
  mapStop (.located place) act

def report (e : Event) : Run Unit :=
  modify fun m => { m with events := e :: m.events }

end Run

namespace Machine

/-- The latest registration of a name on the first type of a lineage that has one. -/
def registration? (m : Machine) (lineage : List ValueType) (name : String) : Option Registration :=
  lineage.findSome? fun t => m.members.lookup (t, name)

theorem registration?_congr {m n : Machine} (h : m.members = n.members) (lineage : List ValueType)
    (name : String) : m.registration? lineage name = n.registration? lineage name := by
  simp only [registration?, h]

def register (m : Machine) (type : ValueType) (name : String) (function : Value)
    (isProperty : Bool) : Machine :=
  { m with members := ((type, name), ⟨function, isProperty⟩) :: m.members }

def global? (m : Machine) (name : String) : Option Value :=
  m.globals.lookup name

def setGlobal (m : Machine) (name : String) (v : Value) : Machine :=
  { m with globals := (name, v) :: m.globals.filter (·.1 != name) }

def dropGlobal (m : Machine) (name : String) : Machine :=
  { m with globals := m.globals.filter (·.1 != name) }

end Machine

namespace Run

variable {α : Type}

def registration? (lineage : List ValueType) (name : String) : Run (Option Registration) := do
  return (← get).registration? lineage name

def global? (name : String) : Run (Option Value) := do
  return (← get).global? name

def search? (host : Host) : Run (Option Search) := do
  return (← get).hosts host

def defaultHost : Run Host := do
  return (← get).host

/-- The host that is given, or else the default host. -/
def hostOr (host : Option Host) : Run Host :=
  match host with
  | some host => pure host
  | none => defaultHost

def scope : Run (Option Ref) := do
  return (← get).scope

theorem registration?_bind (lineage : List ValueType) (name : String)
    (act : Option Registration → Run α) (m : Machine) :
    (registration? lineage name >>= act) m = act (m.registration? lineage name) m := rfl

theorem search?_bind (host : Host) (act : Option Search → Run α) (m : Machine) :
    (search? host >>= act) m = act (m.hosts host) m := rfl

end Run

namespace Machine

def memberTable : List ((ValueType × String) × Registration) :=
  let entry (t : ValueType) (name : String) (f : Builtin) :=
    ((t, name), (⟨.builtin f, name == "length"⟩ : Registration))
  TextMember.all.map (fun f => entry .text f.name (.text f))
    ++ SequenceMember.all.map (fun f => entry .list f.name (.sequence f))
    ++ SequenceMember.ofTuples.map (fun f => entry .tuple f.name (.sequence f))
    ++ [entry .dict SequenceMember.length.name (.sequence .length)]
    ++ NumberMember.all.map (fun f => entry .int f.name (.number f))
    ++ NumberMember.all.map (fun f => entry .float f.name (.number f))

/-- The ratio of the circumference of a circle to its diameter, and the base of natural logarithms,
to the nearest float. -/
def mathConstants : List (String × Value) :=
  [("PI", .ofFloat (Float.ofBits 0x400921fb54442d18)),
    ("E", .ofFloat (Float.ofBits 0x4005bf0a8b145769))]

def mathFields : List (String × Value) :=
  GlobalFunction.inMath.map (fun (name, f) => (name, .builtin (.global f))) ++ mathConstants

/-- The members and globals of the language, an empty cache and the standard host. -/
def initial : Machine :=
  let (math, heap) := Heap.empty.alloc (.record mathFields)
  { heap
    members := memberTable
    globals := ("Math", .record math)
      :: GlobalFunction.named.map fun (name, f) => (name, .builtin (.global f))
    cache := .empty
    host := .standard
    hosts := fun _ => none
    scope := none
    fresh := 0
    compiled := 0
    events := []
    searches := [] }

end Machine

end StringLambda
