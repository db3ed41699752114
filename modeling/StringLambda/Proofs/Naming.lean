import StringLambda.Proofs.Evaluation.Oblivious
import StringLambda.Proofs.Evaluation.Unnamed
import StringLambda.Proofs.Naming.Texts
import StringLambda.Proofs.Scoping.Mapping

namespace StringLambda

open Run

/-! Members by name. A text that names a member does what an arrow does that calls or reads this
member on its first parameter. The text looks for the member under the scope in place and the arrow
under the scope of the invocation, and only a property can tell which one it is read under. -/

theorem Run.EndsAlike.unplaced {α : Type} {act other : Run α} {m n : Machine}
    (h : EndsAlike (act m) (other n)) : EndsAlike (act.unplaced m) (other.unplaced n) := by
  simp only [Run.unplaced]
  generalize act m = result at h
  generalize other n = result' at h
  cases h with
  | ok a h => exact .ok a h
  | error stop h => exact .error _ h

section

variable {depth : Nat} {host : Host} {receiver : Value} {name : String} {found : Option Member}
  {m n : Machine}

theorem find_under_scope (h : Member.find (call depth) host receiver name m = .ok found n)
    (hfound : ∀ member, found = some member → member.isCallable = true) (scope : Option Ref) :
    Member.find (call depth) host receiver name { m with scope } = .ok found { n with scope } ∧
      n.scope = m.scope := by
  -- Handed the scope instead of finding it in the state, the search hands it on to no call.
  have hlexical := Member.find_rel (call_lexical depth scope) (lexical_search host) receiver name
  have hwithin := Member.find_of_not_read h hfound (callWithin depth scope)
  have hscope := hlexical.scope m
  rw [hwithin] at hscope
  refine ⟨?_, hscope⟩
  rw [hlexical.eq m, hwithin]
  rfl

/-- The search for a name finds a member that is not called, unless it fails. -/
def Member.ReadsOnly (call : Caller) (host : Host) (receiver : Value) (name : String)
    (m : Machine) : Prop :=
  ∀ found n, Member.find call host receiver name m = .ok found n →
    ∃ member, found = some member ∧ member.isCallable = false

theorem Member.ReadsOnly.of_property {caller : Caller} {reg : Registration}
    (hkeys : host ≠ .keysOnly) (hsearch : m.hosts host = none)
    (hreg : m.registration? receiver.type.lineage name = some reg)
    (hproperty : reg.isProperty = true) : ReadsOnly caller host receiver name m := by
  intro found n hfind
  obtain ⟨k, hk, -, heq⟩ := Member.exists_find_eq hkeys hsearch caller receiver name
  exact exists_of_property ((hk.registration?_eq _ _).trans hreg) hproperty (heq.symm.trans hfind)

theorem Member.ReadsOnly.under_scope (h : ReadsOnly (call depth) host receiver name m)
    (scope : Option Ref) : ReadsOnly (call depth) host receiver name { m with scope } := by
  intro found n hfind
  -- Otherwise the search calls nothing, and back under the scope of before it ends alike.
  by_contra hcalled
  have hfound : ∀ member, found = some member → member.isCallable = true := by
    intro member hsome
    by_contra hmember
    exact hcalled ⟨member, hsome, by simpa using hmember⟩
  exact hcalled (h found _ (find_under_scope hfind hfound m.scope).1)

end

section

variable {depth : Nat} {receiver : Value} {host : Option Host} {m : Machine} (hm : m.Coherent)
include hm

/-- An arrow whose body does what a run does that no note and no place of an error matters to. -/
theorem invoke_arrow {text : String} {f : Lambda} {act : Run Value}
    (hsource : ∀ bound, Lambda.ofSource bound text = .ok f)
    (htext : Unnamed (call (depth + 1)) (host.getD m.host) receiver text m) (args : List Value)
    (scope : Option Ref) (hact : Oblivious act act)
    (hbody : (eval (call depth) ⟨Frame.bind f.params (receiver :: args), scope,
      some (host.getD m.host)⟩ f.body).unplaced = act.unplaced) :
    EndsAlike ((withScope scope act).unplaced m)
      ((invoke (call (depth + 1)) receiver (.text text) args scope host).unplaced m) := by
  -- What the search for the text and its compilation have changed are notes, which the body does
  -- not see.
  obtain ⟨n, hn, hinvoke⟩ := exists_invoke_source hm hsource htext args scope
  have hrun : (invoke (call (depth + 1)) receiver (.text text) args scope host).unplaced m =
      (withScope scope act).unplaced n := by
    rw [unplaced_congr_at hinvoke, unplaced_withScope, unplaced_withScope, hbody]
  rw [hrun]
  exact (hact.withScope scope m n hn).unplaced

end

theorem withScope_congr_at {α : Type} {act other : Run α} {m n : Machine} {scope : Option Ref}
    (h : act { m with scope } = other { n with scope }) (hscope : n.scope = m.scope) :
    withScope scope act m = withScope scope other n := by
  simp only [withScope, h, hscope]

section

variable {depth : Nat} {receiver : Value} {name : String} {host : Host} {m : Machine}
  (hm : m.Coherent) (locals : List (String × Value)) (scope : Option Ref)
include hm

theorem invokeText_of_isCallable {n : Machine} {member : Member}
    (hfind : Member.find (call depth) host receiver name m = .ok (some member) n)
    (hmember : member.isCallable = true) (args : List Value) :
    EndsAlike (invokeText (call depth) receiver name args scope host m)
      (withScope scope
        (callMember (call depth) ⟨locals, scope, some host⟩ receiver name args) m) := by
  have hfound : ∀ other, some member = some other → other.isCallable = true := by
    rintro _ ⟨⟩
    exact hmember
  -- The arrow looks for the member with the scope in place already.
  obtain ⟨hunder, hscope⟩ := find_under_scope hfind hfound scope
  have hcoherent := (find_oblivious depth host receiver name).coherent hm
  rw [hfind] at hcoherent
  let reported : Machine := { n with events := .invokingMember member.name :: n.events }
  have hreported : n.Agrees reported := .noted hcoherent reported.events n.searches
  have hdirect : invokeText (call depth) receiver name args scope host m =
      withScope scope (call depth .plain member.value args) reported := by
    refine (bind_of_ok hfind _).trans ?_
    simp only [invokeMember, hmember, if_true]
    rfl
  have harrow : callMember (call depth) ⟨locals, scope, some host⟩ receiver name args
      { m with scope } = call depth .plain member.value args { n with scope } := by
    simp only [callMember, requireMember, hostOr, pure_bind, bind_assoc]
    refine (bind_of_ok hunder _).trans ?_
    simp only [hmember, pure_bind, if_true]
  rw [hdirect, withScope_congr_at harrow hscope]
  exact (call_oblivious depth .plain member.value args).withScope scope reported n hreported.symm

theorem invokeText_of_readsOnly
    (h : Member.ReadsOnly (call depth) host receiver name { m with scope }) :
    EndsAlike (withScope scope (invokeText (call depth) receiver name [] scope host) m)
      (withScope scope (readField (call depth) ⟨locals, scope, some host⟩ receiver name) m) := by
  let within : Machine := { m with scope }
  have hcoherent := (find_oblivious depth host receiver name).coherent (m := within) hm
  cases hfind : Member.find (call depth) host receiver name within with
  | error stop n =>
      rw [hfind] at hcoherent
      have hdirect : invokeText (call depth) receiver name [] scope host within =
          .error stop n := bind_of_error hfind _
      have hfield : readField (call depth) ⟨locals, scope, some host⟩ receiver name within =
          .error stop n := by
        simp only [readField, requireMember, hostOr, pure_bind, bind_assoc]
        exact bind_of_error hfind _
      simp only [withScope, within] at hdirect hfield ⊢
      rw [hdirect, hfield]
      exact .error stop ((Machine.Agrees.refl hcoherent).under_scope m.scope)
  | ok found n =>
      rw [hfind] at hcoherent
      obtain ⟨member, rfl, hmember⟩ := h found n hfind
      let reported : Machine := { n with events := .readingMember member.name :: n.events }
      have hdirect : invokeText (call depth) receiver name [] scope host within =
          .ok member.value reported := by
        refine (bind_of_ok hfind _).trans ?_
        simp only [invokeMember, hmember, Bool.false_eq_true, if_false]
        rfl
      have hfield : readField (call depth) ⟨locals, scope, some host⟩ receiver name within =
          .ok member.value n := by
        simp only [readField, requireMember, hostOr, pure_bind, bind_assoc]
        exact bind_of_ok hfind _
      have hreported : n.Agrees reported := .noted hcoherent reported.events n.searches
      simp only [withScope, within] at hdirect hfield ⊢
      rw [hdirect, hfield]
      exact .ok member.value (hreported.symm.under_scope m.scope)

end

section

variable {depth : Nat} {receiver : Value} {name x : String} {m : Machine} (hm : m.Coherent)
  (host : Option Host)

theorem invoke_text (depth : Nat) (receiver : Value) (name : String) (args : List Value)
    (scope : Option Ref) {n : Machine} (hn : n.host = m.host) :
    invoke (call depth) receiver (.text name) args scope host n =
      invokeText (call depth) receiver name args scope (host.getD m.host) n := by
  cases host with
  | none =>
      rw [← hn]
      rfl
  | some host => rfl

include hm

theorem invoke_memberCall {names : List String} {args : List Value} {member : Member}
    {n : Machine} (hparams : ∀ p ∈ x :: names, Lexeme .ident p.toList)
    (hnodup : (x :: names).Nodup) (hname : IsWord name) (hlen : names.length = args.length)
    (hfind : Member.find (call depth) (host.getD m.host) receiver name m = .ok (some member) n)
    (hmember : member.isCallable = true)
    (htext : Unnamed (call (depth + 1)) (host.getD m.host) receiver
      (memberCallText x names name) m) (scope : Option Ref) :
    EndsAlike ((invoke (call depth) receiver (.text name) args scope host).unplaced m)
      ((invoke (call (depth + 1)) receiver (.text (memberCallText x names name)) args scope
        host).unplaced m) := by
  obtain ⟨p, q, hsource⟩ := exists_ofSource_memberCall hparams hnodup hname
  have hdo := invokeText_of_isCallable hm (Frame.bind (x :: names) (receiver :: args)) scope hfind
    hmember args
  rw [← invoke_text host depth receiver name args scope rfl] at hdo
  refine hdo.unplaced.trans (invoke_arrow hm hsource htext args scope ?_ ?_)
  · exact callMember_rel (call_oblivious depth) (oblivious_asks _) _ _ _
  · exact eval_memberCall p q name hnodup hlen

theorem invoke_memberRead (hx : Lexeme .ident x.toList) (hname : IsWord name)
    (hreads : Member.ReadsOnly (call depth) (host.getD m.host) receiver name m)
    (htext : Unnamed (call (depth + 1)) (host.getD m.host) receiver (memberReadText x name) m)
    (scope : Option Ref) :
    EndsAlike
      ((withScope scope (invoke (call depth) receiver (.text name) [] scope host)).unplaced m)
      ((invoke (call (depth + 1)) receiver (.text (memberReadText x name)) [] scope
        host).unplaced m) := by
  obtain ⟨p, q, hsource⟩ := exists_ofSource_memberRead hx hname
  have hdo := invokeText_of_readsOnly hm (Frame.bind [x] [receiver]) scope
    (hreads.under_scope scope)
  have hdirect : withScope scope (invoke (call depth) receiver (.text name) [] scope host) m =
      withScope scope (invokeText (call depth) receiver name [] scope (host.getD m.host)) m :=
    withScope_congr_at (invoke_text host depth receiver name [] scope rfl) rfl
  rw [← hdirect] at hdo
  have hread : Oblivious
      (readField (call depth) ⟨Frame.bind [x] [receiver], scope, some (host.getD m.host)⟩ receiver
        name) _ :=
    .bind (requireMember_rel (call_oblivious depth) (oblivious_asks _) receiver name)
      fun member => .pure member.value
  exact hdo.unplaced.trans
    (invoke_arrow hm hsource htext [] scope hread (eval_memberRead p q name))

end

/-- Whatever the receiver, the names and the arguments are, a text that names a member which may be
called does what the arrow does that calls this member on its other parameters. A text that names a
member which is read does what the arrow does that reads it, as long as the scope of the invocation
is in place already; where no property is read, it does so in any case. -/
theorem invoke_named {m : Machine} (hm : m.Coherent) {x name : String} {names : List String}
    (hparams : ∀ p ∈ x :: names, Lexeme .ident p.toList) (hnodup : (x :: names).Nodup)
    (hname : IsWord name) (depth : Nat) (receiver : Value) (scope : Option Ref)
    (host : Option Host) :
    (∀ args member n, names.length = args.length →
      Member.find (call depth) (host.getD m.host) receiver name m = .ok (some member) n →
      member.isCallable = true →
      Unnamed (call (depth + 1)) (host.getD m.host) receiver (memberCallText x names name) m →
      EndsAlike ((invoke (call depth) receiver (.text name) args scope host).unplaced m)
        ((invoke (call (depth + 1)) receiver (.text (memberCallText x names name)) args scope
          host).unplaced m)) ∧
    (Member.ReadsOnly (call depth) (host.getD m.host) receiver name m →
      Unnamed (call (depth + 1)) (host.getD m.host) receiver (memberReadText x name) m →
      EndsAlike
        ((withScope scope (invoke (call depth) receiver (.text name) [] scope host)).unplaced m)
        ((invoke (call (depth + 1)) receiver (.text (memberReadText x name)) [] scope
          host).unplaced m) ∧
      (Member.CallsNothing (host.getD m.host) receiver name m →
        EndsAlike ((invoke (call depth) receiver (.text name) [] scope host).unplaced m)
          ((invoke (call (depth + 1)) receiver (.text (memberReadText x name)) [] scope
            host).unplaced m))) := by
  refine ⟨fun args member n hlen hfind hmember htext => ?_, fun hreads htext => ?_⟩
  · exact invoke_memberCall hm host hparams hnodup hname hlen hfind hmember htext scope
  · have harrow :=
      invoke_memberRead hm host (hparams x List.mem_cons_self) hname hreads htext scope
    refine ⟨harrow, fun hnothing => ?_⟩
    rwa [← unplaced_congr_at (withScope_invoke hnothing depth [] scope scope)]

theorem Unnamed.of_initial {caller : Caller} {receiver : Value} {text : String}
    (h : ∃ n, Member.find caller .standard receiver text .initial = .ok none n) :
    Unnamed caller .standard receiver text .initial :=
  ⟨h, fun _ hsearch => nomatch hsearch⟩

/-- `repeat` repeats a text, and `real` is read off a number, in both ways. -/
theorem invoke_named_repeat :
    Machine.initial.Coherent ∧ (∀ p ∈ ["x", "n"], Lexeme .ident p.toList) ∧ IsWord "repeat" ∧
      EndsAlike
        ((invoke (call 2) (.text "ab") (.text "repeat") [.ofInt 2] none none).unplaced .initial)
        ((invoke (call 3) (.text "ab") (.text "x, n -> x.repeat(n)") [.ofInt 2] none
          none).unplaced .initial) ∧
      EndsAlike
        ((invoke (call 2) (.ofInt 5) (.text "real") [] none none).unplaced .initial)
        ((invoke (call 3) (.ofInt 5) (.text "x -> x.real") [] none none).unplaced .initial) := by
  have hm : Machine.initial.Coherent := .uncached .initial
  have hx : Lexeme .ident "x".toList := lexeme_letter (c := 'x') rfl (by decide) (by decide)
  have hn : Lexeme .ident "n".toList := lexeme_letter (c := 'n') rfl (by decide) (by decide)
  have hone : ∀ p ∈ ["x"], Lexeme .ident p.toList := List.forall_mem_singleton.mpr hx
  have hparams : ∀ p ∈ ["x", "n"], Lexeme .ident p.toList :=
    List.forall_mem_cons.mpr ⟨hx, List.forall_mem_singleton.mpr hn⟩
  have hrepeat : IsWord "repeat" := .of_all (c := 'r') rfl (by decide) (by decide)
  have hreal : IsWord "real" := .of_all (c := 'r') rfl (by decide) (by decide)
  refine ⟨hm, hparams, hrepeat, ?_, ?_⟩
  · exact (invoke_named hm hparams (by decide) hrepeat 2 (.text "ab") none none).1 [.ofInt 2]
      _ _ rfl rfl rfl (.of_initial ⟨_, rfl⟩)
  · have hreads : Member.ReadsOnly (call 2) .standard (.ofInt 5) "real" .initial := by
      intro found n hfind
      cases hfind
      exact ⟨_, rfl, rfl⟩
    have hnothing : Member.CallsNothing .standard (.ofInt 5) "real" .initial :=
      Member.callsNothing_of_registration fun reg hreg => nomatch hreg
    exact ((invoke_named hm hone (by decide) hreal 2 (.ofInt 5) none none).2 hreads
      (.of_initial ⟨_, rfl⟩)).2 hnothing

/-- A property of texts that maps the list of 1 and 2 by the text. -/
def Machine.withProperty : Machine :=
  { Machine.withList.register .text "mapped"
      (.bound 0 (.builtin (.sequence .map)) (.list ⟨1, none⟩)) true with fresh := 1 }

def givesTens (result : EStateM.Result Stop Machine Value) : Bool :=
  match result with
  | .ok (.list r) m => m.heap.items r |>.all fun
    | .number (.int 10) => true
    | _ => false
  | _ => false

theorem Run.EndsAlike.givesTens_eq {r r' : EStateM.Result Stop Machine Value}
    (h : EndsAlike r r') : givesTens r = givesTens r' := by
  cases h with
  | error stop h => rfl
  | ok v h => cases v <;> simp only [givesTens, h.heap]

/-- A property is read under the scope in place by its name, and under the scope of the invocation
by the arrow. -/
theorem property_read_outside_scope :
    Machine.withProperty.Coherent ∧
      Member.ReadsOnly (call 6) .standard (.text "k ?? v") "mapped" .withProperty ∧
      Unnamed (call 7) .standard (.text "k ?? v") (memberReadText "x" "mapped") .withProperty ∧
      ¬ EndsAlike
        ((invoke (call 6) (.text "k ?? v") (.text "mapped") [] (some ⟨2, none⟩) none).unplaced
          .withProperty)
        ((invoke (call 7) (.text "k ?? v") (.text (memberReadText "x" "mapped")) [] (some ⟨2, none⟩)
          none).unplaced .withProperty) := by
  have hm : Machine.withProperty.Coherent := .uncached .withProperty
  have hx : Lexeme .ident "x".toList := lexeme_letter (c := 'x') rfl (by decide) (by decide)
  have hname : IsWord "mapped" := .of_all (c := 'm') rfl (by decide) (by decide)
  have hreg : Machine.withProperty.registration? (Value.text "k ?? v").type.lineage "mapped" =
      some ⟨.bound 0 (.builtin (.sequence .map)) (.list ⟨1, none⟩), true⟩ := rfl
  have hreads : Member.ReadsOnly (call 6) .standard (.text "k ?? v") "mapped" .withProperty :=
    .of_property (by decide) rfl hreg rfl
  have htext : Unnamed (call 7) .standard (.text "k ?? v") (memberReadText "x" "mapped")
      .withProperty := ⟨⟨_, rfl⟩, fun _ hsearch => nomatch hsearch⟩
  refine ⟨hm, hreads, htext, fun halike => ?_⟩
  have hunder := invoke_memberRead hm none hx hname hreads htext (some ⟨2, none⟩)
  have htens := (halike.trans hunder.symm).givesTens_eq
  have hdirect : givesTens ((invoke (call 6) (.text "k ?? v") (.text "mapped") [] (some ⟨2, none⟩)
      none).unplaced .withProperty) = false := by
    decide +kernel
  have hscope : givesTens ((withScope (some ⟨2, none⟩) (invoke (call 6) (.text "k ?? v")
      (.text "mapped") [] (some ⟨2, none⟩) none)).unplaced .withProperty) = true := by
    decide +kernel
  rw [hdirect, hscope] at htens
  cases htens

end StringLambda
