import StringLambda.Proofs.Resolving.Attributes

namespace StringLambda

/-! Resolution of members. Whatever has been registered in whatever order, a name on a receiver
stands for the latest registration on the nearest type that has one, else for an entry, else for
what the receiver has by itself. -/

/-- A registration with the type and the name that it is made for. -/
structure Enrolment extends Registration where
  type : ValueType
  name : String

def Enrolment.ofEntry (entry : (ValueType × String) × Registration) : Enrolment :=
  ⟨entry.2, entry.1.1, entry.1.2⟩

namespace Machine

def enrol (m : Machine) (e : Enrolment) : Machine :=
  m.register e.type e.name e.function e.isProperty

def enrolAll (m : Machine) (es : List Enrolment) : Machine :=
  es.foldl enrol m

def enrolments (m : Machine) : List Enrolment :=
  (m.members.map .ofEntry).reverse

theorem enrolments_enrol (m : Machine) (e : Enrolment) :
    (m.enrol e).enrolments = m.enrolments ++ [e] := by
  rw [enrolments, enrol, register, List.map_cons, List.reverse_cons]
  rfl

theorem enrolments_enrolAll (m : Machine) (es : List Enrolment) :
    (m.enrolAll es).enrolments = m.enrolments ++ es := by
  induction es generalizing m with
  | nil => exact (List.append_nil _).symm
  | cons e es ih =>
      refine (ih (m.enrol e)).trans ?_
      rw [enrolments_enrol, List.append_assoc, List.singleton_append]

theorem heap_enrolAll (m : Machine) (es : List Enrolment) : (m.enrolAll es).heap = m.heap := by
  induction es generalizing m with
  | nil => rfl
  | cons e es ih => exact ih (m.enrol e)

end Machine

namespace Enrolment

def IsLatest (e : Enrolment) (es : List Enrolment) : Prop :=
  ∃ before after, es = before ++ e :: after ∧ ∀ f ∈ after, ¬ (f.type = e.type ∧ f.name = e.name)

/-- The latest registration of a name on the nearest type of a lineage that has one. -/
structure Wins (e : Enrolment) (es : List Enrolment) (lineage : List ValueType) (name : String) :
    Prop where
  named : e.name = name
  latest : e.IsLatest es
  nearest : ∃ nearer farther, lineage = nearer ++ e.type :: farther ∧
    ∀ f ∈ es, f.name = name → f.type ∉ nearer

def NoneFor (es : List Enrolment) (lineage : List ValueType) (name : String) : Prop :=
  ∀ e ∈ es, e.name = name → e.type ∉ lineage

variable {e f : Enrolment} {es : List Enrolment} {lineage : List ValueType} {name : String}

theorem IsLatest.of_append (h : f.IsLatest (es ++ [e])) : f = e ∨ f.IsLatest es := by
  obtain ⟨before, after, hes, hafter⟩ := h
  obtain rfl | ⟨after, g, rfl⟩ := List.eq_nil_or_concat after
  · exact .inl (List.singleton_inj.mp (List.append_inj' hes rfl).2).symm
  · rw [List.concat_eq_append, ← List.cons_append, ← List.append_assoc] at hes
    refine .inr ⟨before, after, List.append_inj_left' hes rfl, fun g hg => hafter g ?_⟩
    rw [List.concat_eq_append]
    exact List.mem_append_left _ hg

theorem Wins.of_append (h : f.Wins (es ++ [e]) lineage name) :
    f = e ∨ f.Wins es lineage name := by
  obtain ⟨nearer, farther, hlineage, hnearer⟩ := h.nearest
  exact h.latest.of_append.imp_right fun hlatest =>
    ⟨h.named, hlatest, nearer, farther, hlineage, fun g hg => hnearer g (List.mem_append_left _ hg)⟩

theorem NoneFor.of_append (h : NoneFor (es ++ [e]) lineage name) : NoneFor es lineage name :=
  fun g hg => h g (List.mem_append_left _ hg)

end Enrolment

namespace Machine

open Enrolment

variable {m : Machine} {lineage : List ValueType} {name : String} {reg : Registration}

theorem lookup_members_eq_some_iff {type : ValueType} :
    m.members.lookup (type, name) = some reg ↔
      (⟨reg, type, name⟩ : Enrolment).IsLatest m.enrolments := by
  rw [List.lookup_eq_some_iff]
  constructor
  · rintro ⟨later, earlier, hmembers, hlater⟩
    refine ⟨(earlier.map ofEntry).reverse, (later.map ofEntry).reverse, ?_, fun f hf => ?_⟩
    · rw [enrolments, hmembers, List.map_append, List.map_cons, List.reverse_append,
        List.reverse_cons, List.append_assoc, List.singleton_append]
      rfl
    · rw [List.mem_reverse, List.mem_map] at hf
      obtain ⟨entry, hentry, rfl⟩ := hf
      rintro ⟨rfl, rfl⟩
      exact absurd (hlater entry hentry) (by simp [ofEntry])
  · rintro ⟨earlier, later, hes, hlater⟩
    rw [enrolments, List.reverse_eq_iff, List.reverse_append, List.reverse_cons,
      List.append_assoc, List.singleton_append, List.map_eq_append_iff] at hes
    obtain ⟨front, rest, hmembers, hfront, hrest⟩ := hes
    obtain ⟨entry, back, rfl, hentry, -⟩ := List.map_eq_cons_iff.mp hrest
    cases hentry
    refine ⟨front, back, hmembers, fun other hother => ?_⟩
    have hmem : ofEntry other ∈ front.map ofEntry := List.mem_map_of_mem hother
    rw [hfront, List.mem_reverse] at hmem
    rw [bne_iff_ne]
    intro heq
    exact hlater _ hmem ⟨(congrArg Prod.fst heq).symm, (congrArg Prod.snd heq).symm⟩

theorem lookup_members_eq_none_iff {type : ValueType} :
    m.members.lookup (type, name) = none ↔
      ∀ e ∈ m.enrolments, e.name = name → e.type ≠ type := by
  rw [List.lookup_eq_none_iff]
  simp only [enrolments, List.mem_reverse, List.mem_map]
  constructor
  · rintro h _ ⟨entry, hentry, rfl⟩ rfl rfl
    exact absurd (h entry hentry) (by simp [ofEntry])
  · intro h entry hentry
    rw [bne_iff_ne]
    intro heq
    exact h _ ⟨entry, hentry, rfl⟩ (congrArg Prod.snd heq).symm (congrArg Prod.fst heq).symm

theorem registration?_eq_some_iff : m.registration? lineage name = some reg ↔
    ∃ e : Enrolment, e.Wins m.enrolments lineage name ∧ e.toRegistration = reg := by
  rw [registration?, List.findSome?_eq_some_iff]
  constructor
  · rintro ⟨nearer, type, farther, hlineage, hfound, hnearer⟩
    have hlatest := lookup_members_eq_some_iff.mp hfound
    refine ⟨⟨reg, type, name⟩, ⟨rfl, hlatest, nearer, farther, hlineage, ?_⟩, rfl⟩
    intro f hf hname hmem
    exact lookup_members_eq_none_iff.mp (hnearer f.type hmem) f hf hname rfl
  · rintro ⟨e, ⟨rfl, hlatest, nearer, farther, hlineage, hnearer⟩, rfl⟩
    refine ⟨nearer, e.type, farther, hlineage, lookup_members_eq_some_iff.mpr hlatest,
      fun type htype => lookup_members_eq_none_iff.mpr fun f hf hname heq => ?_⟩
    exact hnearer f hf hname (heq ▸ htype)

theorem registration?_eq_none_iff :
    m.registration? lineage name = none ↔ NoneFor m.enrolments lineage name := by
  simp only [registration?, List.findSome?_eq_none_iff, lookup_members_eq_none_iff]
  exact ⟨fun h e he hname hmem => h e.type hmem e he hname rfl,
    fun h type htype e he hname heq => h e he hname (heq ▸ htype)⟩

end Machine

def Text.NamesAttribute (name : String) : Prop :=
  Text.IsIdentifier name ∧ ¬ (['_', '_'] <+: name.toList ∧ ['_', '_'] <:+ name.toList)

theorem Text.isReserved_iff {name : String} : Text.isReserved name = true ↔
    ['_', '_'] <+: name.toList ∧ ['_', '_'] <:+ name.toList := by
  rw [isReserved, Bool.and_eq_true, beq_iff_eq, beq_iff_eq, List.prefix_iff_eq_take,
    ← List.reverse_prefix, List.prefix_iff_eq_take]
  exact and_congr eq_comm eq_comm

theorem Text.namesAttribute_iff {name : String} : Text.NamesAttribute name ↔
    (!Text.isIdentifier name || Text.isReserved name) = false := by
  rw [NamesAttribute, ← isIdentifier_iff, ← isReserved_iff, Bool.or_eq_false_iff,
    Bool.not_eq_false', Bool.not_eq_true]

def Heap.HasEntry (h : Heap) (receiver : Value) (name : String) (v : Value) : Prop :=
  ∃ r before e after, receiver = .dict r ∧ h.entries r = before ++ e :: after ∧
    e.key = .text name ∧ e.value = v ∧ ∀ other ∈ before, other.key ≠ .text name

def Heap.entryUnder? (h : Heap) (name : String) : Value → Option Value
  | .dict r => Entry.find? (.text name) (h.entries r)
  | _ => none

theorem Heap.hasEntry_iff {h : Heap} {receiver v : Value} {name : String} :
    h.HasEntry receiver name v ↔ h.entryUnder? name receiver = some v := by
  cases receiver with
  | dict r =>
      rw [entryUnder?, Entry.find?, Option.map_eq_some_iff]
      simp only [List.find?_eq_some_iff_append]
      constructor
      · rintro ⟨_, before, e, after, heq, hentries, hkey, hvalue, hbefore⟩
        cases heq
        refine ⟨e, ⟨by simp [hkey], before, after, hentries, fun other hother => ?_⟩, hvalue⟩
        simpa using hbefore other hother
      · rintro ⟨e, ⟨hkey, before, after, hentries, hbefore⟩, hvalue⟩
        refine ⟨r, before, e, after, rfl, hentries, by simpa using hkey, hvalue,
          fun other hother => ?_⟩
        simpa using hbefore other hother
  | _ => simp [HasEntry, entryUnder?]

theorem Heap.entryUnder?_eq_none_iff {h : Heap} {receiver : Value} {name : String} :
    h.entryUnder? name receiver = none ↔ ∀ v, ¬ h.HasEntry receiver name v := by
  simp only [hasEntry_iff, Option.eq_none_iff_forall_ne_some]

/-- What a name on a receiver stands for. -/
inductive Resolution where
  | registered (reg : Registration)
  | entry (v : Value)
  | own (found : Attribute)
  | nothing

/-- The member that is made of what a name stands for: a property is read from the receiver, any
other registered function is bound to it, and the rest is taken as it is. -/
def Resolution.member (call : Caller) (receiver : Value) (name : String) :
    Resolution → Run (Option Member)
  | .registered ⟨function, true⟩ => do
      return some ⟨name, ← call .plain function [receiver], false⟩
  | .registered ⟨function, false⟩ => do
      if function.isCallable then
        return some ⟨name, .bound (← Run.freshId) function receiver, true⟩
      else Run.defect .wrongKind
  | .entry v => return some ⟨name, v, v.isCallable⟩
  | .own found => do
      let v ← found.read receiver
      return some ⟨name, v, v.isCallable⟩
  | .nothing => return none

/-- What a name on a receiver whose types are asked in some order stands for after registrations. -/
inductive ResolvesBy (es : List Enrolment) (h : Heap) (receiver : Value)
    (types : List ValueType) (name : String) : Resolution → Prop
  | registered {e : Enrolment} (wins : e.Wins es types name) :
      ResolvesBy es h receiver types name (.registered e.toRegistration)
  | entry {v : Value} (unregistered : Enrolment.NoneFor es types name)
      (found : h.HasEntry receiver name v) : ResolvesBy es h receiver types name (.entry v)
  | own {a : Attribute} (unregistered : Enrolment.NoneFor es types name)
      (absent : ∀ v, ¬ h.HasEntry receiver name v) (named : Text.NamesAttribute name)
      (found : receiver.Has h types name a) : ResolvesBy es h receiver types name (.own a)
  | nothing (unregistered : Enrolment.NoneFor es types name)
      (absent : ∀ v, ¬ h.HasEntry receiver name v)
      (missing : Text.NamesAttribute name → ∀ a, ¬ receiver.Has h types name a) :
      ResolvesBy es h receiver types name .nothing

/-- The types that a value is asked for a name by, the nearest one first. -/
def Value.HasLineage (v : Value) (types : List ValueType) : Prop :=
  ∃ t, v.HasType t ∧ t.HasLineage types

theorem Value.hasLineage_iff {v : Value} {types : List ValueType} :
    v.HasLineage types ↔ types = v.type.lineage := by
  simp only [HasLineage, hasType_iff, ValueType.hasLineage_iff, exists_eq_left]

def Resolves (es : List Enrolment) (h : Heap) (receiver : Value) (name : String)
    (found : Resolution) : Prop :=
  ∃ types, receiver.HasLineage types ∧ ResolvesBy es h receiver types name found

theorem resolves_iff_resolvesBy {es : List Enrolment} {h : Heap} {receiver : Value}
    {name : String} {found : Resolution} :
    Resolves es h receiver name found ↔
      ResolvesBy es h receiver receiver.type.lineage name found := by
  simp only [Resolves, Value.hasLineage_iff, exists_eq_left]

namespace Machine

def resolution (m : Machine) (receiver : Value) (name : String) : Resolution :=
  match m.registration? receiver.type.lineage name with
  | some reg => .registered reg
  | none =>
    match m.heap.entryUnder? name receiver with
    | some v => .entry v
    | none =>
      if !Text.isIdentifier name || Text.isReserved name then .nothing
      else (receiver.own? m.heap name).elim .nothing .own

variable {m : Machine} {receiver : Value} {name : String}

theorem resolves_resolution :
    Resolves m.enrolments m.heap receiver name (m.resolution receiver name) := by
  rw [resolves_iff_resolvesBy, resolution]
  split
  next reg hreg =>
    obtain ⟨e, hwins, rfl⟩ := registration?_eq_some_iff.mp hreg
    exact .registered hwins
  next hreg =>
    have hnone := registration?_eq_none_iff.mp hreg
    split
    next v hentry => exact .entry hnone (Heap.hasEntry_iff.mpr hentry)
    next hentry =>
      have habsent := Heap.entryUnder?_eq_none_iff.mp hentry
      split
      next hname =>
        refine .nothing hnone habsent fun hnamed => ?_
        exact absurd hname (by simp [Text.namesAttribute_iff.mp hnamed])
      next hname =>
        have hnamed := Text.namesAttribute_iff.mpr (Bool.eq_false_iff.mpr hname)
        cases hown : receiver.own? m.heap name with
        | some a => exact .own hnone habsent hnamed (Value.has_iff.mpr hown)
        | none =>
            refine .nothing hnone habsent fun _ a ha => ?_
            rw [Value.has_iff, hown] at ha
            cases ha

theorem eq_resolution {found : Resolution} (h : Resolves m.enrolments m.heap receiver name found) :
    found = m.resolution receiver name := by
  rw [resolves_iff_resolvesBy] at h
  cases h with
  | registered wins => rw [resolution, registration?_eq_some_iff.mpr ⟨_, wins, rfl⟩]
  | entry unregistered found =>
      rw [resolution, registration?_eq_none_iff.mpr unregistered, Heap.hasEntry_iff.mp found]
  | own unregistered absent named found =>
      rw [resolution, registration?_eq_none_iff.mpr unregistered,
        Heap.entryUnder?_eq_none_iff.mpr absent, Text.namesAttribute_iff.mp named,
        Value.has_iff.mp found]
      rfl
  | nothing unregistered absent missing =>
      rw [resolution, registration?_eq_none_iff.mpr unregistered,
        Heap.entryUnder?_eq_none_iff.mpr absent]
      dsimp only
      split
      next => rfl
      next hname =>
        have hnamed := Text.namesAttribute_iff.mpr (Bool.eq_false_iff.mpr hname)
        have hown : receiver.own? m.heap name = none :=
          Option.eq_none_iff_forall_ne_some.mpr fun a =>
            mt Value.has_iff.mpr (missing hnamed a)
        rw [hown]
        rfl

theorem resolves_iff {found : Resolution} :
    Resolves m.enrolments m.heap receiver name found ↔ found = m.resolution receiver name :=
  ⟨eq_resolution, fun h => h ▸ resolves_resolution⟩

theorem entry?_eq : (liftM (receiver.entry? name) : Run (Option Value)) m =
    .ok (m.heap.entryUnder? name receiver) m := by
  cases receiver <;> rfl

theorem attribute?_eq_member (call : Caller) :
    (do return (← receiver.attribute? name).map (Member.ofValue name) : Run (Option Member)) m =
      ((receiver.own? m.heap name).elim .nothing .own : Resolution).member call receiver name
        m := by
  have hact := Value.attribute?_eq receiver name ⟨m.heap, m.fresh⟩
  cases hown : receiver.own? m.heap name with
  | none =>
      rw [hown] at hact
      simp only [liftM, monadLift, MonadLift.monadLift, Bind.bind, EStateM.bind, Run.ofAct, hact]
      rfl
  | some found =>
      rw [hown] at hact
      simp only [liftM, monadLift, MonadLift.monadLift, Bind.bind, EStateM.bind, Run.ofAct, hact,
        Option.elim, Resolution.member, Functor.map, EStateM.map]
      cases found.read receiver ⟨m.heap, m.fresh⟩ <;> rfl

theorem findStandard_eq (call : Caller) : Member.findStandard call receiver name m =
    (m.resolution receiver name).member call receiver name m := by
  rw [Member.findStandard, Run.registration?_bind, resolution]
  cases m.registration? receiver.type.lineage name with
  | some reg =>
      obtain ⟨function, property⟩ := reg
      cases property with
      | true =>
          simp only [Member.ofRegistration, Resolution.member, if_true, bind_assoc, pure_bind]
      | false =>
          simp only [Member.ofRegistration, Resolution.member, Bool.false_eq_true, if_false]
          split
          next => rfl
          next => rfl
  | none =>
      dsimp only
      rw [Run.bind_of_ok entry?_eq]
      cases m.heap.entryUnder? name receiver with
      | some v => rfl
      | none =>
          dsimp only
          split
          next => rfl
          next => exact attribute?_eq_member call

/-- One more registration is the winner wherever it makes a difference. -/
theorem resolution_enrol {e : Enrolment}
    (hne : (m.enrol e).resolution receiver name ≠ m.resolution receiver name) :
    (m.enrol e).resolution receiver name = .registered e.toRegistration ∧
      ∃ types, receiver.HasLineage types ∧ e.Wins (m.enrolments ++ [e]) types name := by
  have hnext : Resolves (m.enrolments ++ [e]) m.heap receiver name
      ((m.enrol e).resolution receiver name) :=
    enrolments_enrol m e ▸ resolves_resolution
  generalize (m.enrol e).resolution receiver name = next at hne hnext
  rw [resolves_iff_resolvesBy] at hnext
  -- Whatever else the name stands for, it stood for before.
  have hkept : ∀ {found}, ResolvesBy m.enrolments m.heap receiver receiver.type.lineage name
      found → found = m.resolution receiver name :=
    fun h => eq_resolution (resolves_iff_resolvesBy.mpr h)
  cases hnext with
  | registered wins =>
      obtain rfl | hwins := wins.of_append
      · exact ⟨rfl, _, Value.hasLineage_iff.mpr rfl, wins⟩
      · exact absurd (hkept (.registered hwins)) hne
  | entry unregistered found => exact absurd (hkept (.entry unregistered.of_append found)) hne
  | own unregistered absent named found =>
      exact absurd (hkept (.own unregistered.of_append absent named found)) hne
  | nothing unregistered absent missing =>
      exact absurd (hkept (.nothing unregistered.of_append absent missing)) hne

end Machine

/-- After any registrations each name on each receiver stands for one thing, which a search gives:
the latest registration on the nearest type, else an entry, else what the receiver has by itself.
One more registration makes a difference only to its own name, on receivers that have its type, and
where no nearer type has the name registered. -/
theorem members_resolve (call : Caller) (m : Machine) (es : List Enrolment) (receiver : Value)
    (name : String) :
    ∃ found, (∀ other, Resolves (m.enrolments ++ es) m.heap receiver name other ↔ other = found) ∧
      Member.findBy call .standard receiver name (m.enrolAll es) =
        found.member call receiver name (m.enrolAll es) ∧
      ∀ e next, Resolves (m.enrolments ++ es ++ [e]) m.heap receiver name next → next ≠ found →
        next = .registered e.toRegistration ∧
          ∃ types, receiver.HasLineage types ∧ e.Wins (m.enrolments ++ es ++ [e]) types name := by
  rw [← m.enrolments_enrolAll es, ← m.heap_enrolAll es]
  generalize m.enrolAll es = n
  refine ⟨n.resolution receiver name, fun _ => Machine.resolves_iff, Machine.findStandard_eq call,
    fun e next hnext hne => ?_⟩
  rw [← n.enrolments_enrol e] at hnext
  have hresolved : next = (n.enrol e).resolution receiver name := Machine.eq_resolution hnext
  subst hresolved
  exact Machine.resolution_enrol hne

/-- A list of a type of the embedding program has the members of lists. -/
example (i : Nat) : Machine.initial.resolution
    (.list ⟨i, some (.user 2 "Tagged" (.under .list (.under .object .none)))⟩) "length" =
      .registered ⟨.builtin (.sequence .length), true⟩ := by
  rfl

/-- What is registered for all objects later does not hide what booleans have as integers. -/
example (f g : Value) :
    (Machine.initial.enrolAll [⟨⟨f, true⟩, .int, "kind"⟩, ⟨⟨g, true⟩, .object, "kind"⟩]).resolution
      (.bool true) "kind" = .registered ⟨f, true⟩ := by
  rfl

end StringLambda
