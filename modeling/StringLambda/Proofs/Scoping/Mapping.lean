import StringLambda.Proofs.Evaluation.Alike
import StringLambda.Proofs.Evaluation.Oblivious
import StringLambda.Proofs.Evaluation.Setting
import StringLambda.Proofs.Evaluation.Unnamed
import StringLambda.Proofs.Forms.Arrow
import StringLambda.Proofs.Loops
import StringLambda.Proofs.Scoping

namespace StringLambda

open Run
open StringLambda.Parser

/-! Mapping a list by a text. The member `map`, a lambda that calls it, and the text on one item
after another give the same list, since callbacks run under the scope of the call. -/

/-- A list is the same before each of some visits and after the last one. -/
def Undisturbed (list : Ref) (items : List Value) (visit : Value → Run Value) :
    List Value → Machine → Prop
  | [], m => m.heap.items list = items
  | item :: rest, m => m.heap.items list = items ∧
    ∀ v n, visit item m = .ok v n → Undisturbed list items visit rest n

def thrushEach (depth : Nat) (src : String) (scope : Option Ref) (items : List Value) :
    Run (List Value) :=
  items.mapM fun item => thrush depth item (.text src) [] scope

section

variable {depth : Nat} {list : Ref} {src : String} {scope : Option Ref} {items : List Value}

theorem runCallback_under_scope {m : Machine} {item : Value}
    (h : m.registration? item.type.lineage src = none) :
    Items.runCallback (call depth) (.text src) item [] { m with scope } =
      onState (fun n => { n with scope }) (thrush depth item (.text src) [] scope m) := by
  have hnothing : Member.CallsNothing ((none : Option Host).getD m.host) item src m :=
    Member.callsNothing_of_registration fun reg hreg => nomatch h.symm.trans hreg
  exact invoke_under_scope hnothing depth [] scope scope

theorem visitFrom_callback (done : List Value) {rest : List Value} {m : Machine} {i steps : Nat}
    (hspared : Undisturbed list items (fun item => thrush depth item (.text src) [] scope) rest m)
    (hrest : items.drop i = rest)
    (hnames : ∀ item ∈ rest, m.registration? item.type.lineage src = none)
    (hsteps : rest.length < steps) :
    Items.visitFrom list (fun done item => do
        return .yield ((← Items.runCallback (call depth) (.text src) item []) :: done))
      steps i done { m with scope } =
      onState (fun n => { n with scope })
        ((do return (← thrushEach depth src scope rest).reverse ++ done) m) := by
  obtain ⟨steps, rfl⟩ : ∃ n, steps = n + 1 := ⟨steps - 1, by omega⟩
  induction rest generalizing done m i steps with
  | nil =>
      have hitem : m.heap.item? list i = none := by
        rw [Heap.item?_eq_getElem?, show m.heap.items list = items from hspared,
          List.getElem?_eq_none (List.drop_eq_nil_iff.mp hrest)]
      exact Items.visitFrom_none (m := { m with scope }) hitem _ _ _
  | cons item rest ih =>
      obtain ⟨hlist, hspared⟩ := hspared
      rw [List.forall_mem_cons] at hnames
      have hitem : m.heap.item? list i = some item := by
        rw [Heap.item?_eq_getElem?, hlist, ← List.head?_drop, hrest, List.head?_cons]
      have htail : items.drop (i + 1) = rest := by
        rw [← List.tail_drop, hrest, List.tail_cons]
      obtain ⟨steps, rfl⟩ : ∃ n, steps = n + 1 :=
        ⟨steps - 1, by rw [List.length_cons] at hsteps; omega⟩
      rw [Items.visitFrom_some (m := { m with scope }) hitem]
      have hkeeps := (thrush_keepsSetting depth item (.text src) [] scope) m
      simp only [thrushEach, List.mapM_cons, bind_assoc, pure_bind] at ih ⊢
      simp only [Bind.bind, EStateM.bind, runCallback_under_scope hnames.1]
      cases hrun : thrush depth item (.text src) [] scope m with
      | error e n => rfl
      | ok v n =>
          rw [hrun] at hkeeps
          -- A visit may change the heap, but neither the list nor what is registered.
          have hnext : ∀ item ∈ rest, n.registration? item.type.lineage src = none := by
            intro next hnext
            exact (Machine.registration?_congr hkeeps.members _ _).trans (hnames.2 next hnext)
          have hfewer : rest.length < steps + 1 := Nat.lt_of_succ_lt_succ hsteps
          refine (ih _ (hspared v n hrun) htail hnext steps hfewer).trans ?_
          simp only [Bind.bind, EStateM.bind, List.reverse_cons, List.append_assoc,
            List.singleton_append]

def thrushAll (depth : Nat) (src : String) (scope : Option Ref) (items : List Value) :
    Run Value := do
  Run.newList (← thrushEach depth src scope items)

theorem thrushEach_keepsSetting (depth : Nat) (src : String) (scope : Option Ref)
    (items : List Value) : (thrushEach depth src scope items).KeepsSetting := by
  induction items with
  | nil => exact (Plain.pure []).keeps
  | cons item rest ih =>
      simp only [thrushEach, List.mapM_cons] at ih ⊢
      refine (thrush_keepsSetting depth item _ _ scope).bind fun v => ?_
      exact ih.bind fun vs => (Plain.pure _).keeps

theorem thrushAll_keepsSetting (depth : Nat) (src : String) (scope : Option Ref)
    (items : List Value) : (thrushAll depth src scope items).KeepsSetting :=
  (thrushEach_keepsSetting depth src scope items).bind fun _ => (Plain.newList _).keeps

theorem Run.Oblivious.unplaced {α : Type} {act other : Run α} (h : Oblivious act other) :
    Oblivious act.unplaced other.unplaced := by
  intro m n hmn
  have hends := h m n hmn
  simp only [Run.unplaced]
  generalize act m = result at hends
  generalize other n = result' at hends
  cases hends with
  | ok a hagrees => exact .ok a hagrees
  | error stop hagrees => exact .error _ hagrees

theorem thrushAll_oblivious (depth : Nat) (src : String) (scope : Option Ref)
    (items : List Value) :
    Oblivious (thrushAll depth src scope items) (thrushAll depth src scope items) := by
  refine Oblivious.bind ?_ fun vs => .ofAct (Act.newList vs)
  induction items with
  | nil => exact .pure []
  | cons item rest ih =>
      simp only [thrushEach, List.mapM_cons] at ih ⊢
      refine Oblivious.bind (invoke_oblivious depth item (.text src) [] scope none) fun v => ?_
      exact ih.bind fun vs => .pure _

def Machine.afterFresh (m : Machine) : Machine :=
  { m with fresh := m.fresh + 1 }

theorem Machine.Agrees.of_fresh {m n : Machine} (hm : m.Coherent) (hn : m.SameButNotes n)
    (hfresh : n.fresh = m.fresh + 1) : m.afterFresh.Agrees n where
  toSameButNotes := (SameButNotes.noted m.afterFresh m.fresh m.events m.searches).trans hn
  fresh := hfresh
  known := (SameButNotes.noted m (m.fresh + 1) m.events m.searches).coherent hm

theorem call_map {m : Machine} {id : Nat}
    (hspared : Undisturbed list items (fun item => thrush depth item (.text src) [] scope) items m)
    (hnames : ∀ item ∈ items, m.registration? item.type.lineage src = none)
    (hsteps : items.length < depth) :
    call (depth + 2) .plain (.bound id (.builtin (.sequence .map)) (.list list)) [.text src]
        { m with scope } =
      onState (fun n => { n with scope }) (thrushAll depth src scope items m) := by
  show Items.map (Items.runCallback (call depth)) depth list (.text src) { m with scope } = _
  have hloop := visitFrom_callback [] (i := 0) hspared rfl hnames hsteps
  simp only [Items.map, thrushAll, Bind.bind, EStateM.bind] at hloop ⊢
  rw [hloop]
  cases thrushEach depth src scope items m with
  | ok vs n =>
      have hlist := (Plain.newList vs).under_scope n scope
      simpa only [onState, Pure.pure, EStateM.pure, List.append_nil,
        List.reverse_reverse] using hlist
  | error e n => rfl

end

def mappingText (literal : String) : String :=
  arrowText ["v"] ("v.map(" ++ literal ++ ")")

def mappingTree (place step : Position) (literal : String) : Tree :=
  .node .chain (some place) [.leaf .ident "v",
    .node .method (some step) [.leaf .name "map",
      .node .args (some step) [.leaf .string literal]]]

def mappingLambda (place step : Position) (literal : String) : Lambda :=
  ⟨mappingText literal, ["v"], mappingTree place step literal, .arrow⟩

theorem hasWords_mapping {literal : String} (hliteral : Lexeme .string literal.toList) :
    HasWords ("v.map(" ++ literal ++ ")").toList [] [(.ident, "v"), (.dot, "."), (.ident, "map"),
      (.lpar, "("), (.string, literal), (.rpar, ")")] := by
  have htext : ("v.map(" ++ literal ++ ")").toList =
      ['v'] ++ (['.'] ++ (['m', 'a', 'p'] ++ (['('] ++ (literal.toList ++ [')'])))) := by
    simp [String.toList_append]
  have hv : Lexeme .ident ['v'] := lexeme_ident (by decide) (by simp) (by decide)
  have hmap : Lexeme .ident ['m', 'a', 'p'] :=
    lexeme_ident (by decide) (List.all_eq_true.mp (by decide)) (by decide)
  have hliteral : HasWords literal.toList ([')'] ++ []) [(.string, literal)] := by
    simpa using HasWords.string hliteral
  rw [htext]
  refine .cons (.word hv (by decide)) (.cons (.single (by decide) (by decide)) ?_)
  refine .cons (.word hmap (by decide)) (.cons (.single (by decide) (by decide)) ?_)
  exact .cons hliteral (.single (by decide) (by decide))

theorem exists_ofTokens_mapping {literal : String} {ts : List Token} (stop : Position)
    (hts : ts.map Token.word = [(.ident, "v"), (.dot, "."), (.ident, "map"), (.lpar, "("),
      (.string, literal), (.rpar, ")")]) :
    ∃ p q, Tree.ofTokens (ts ++ [.stop stop]) = .ok (mappingTree p q literal) := by
  match ts, hts with
  | [⟨_, _, p1⟩, ⟨_, _, p2⟩, ⟨_, _, p3⟩, ⟨_, _, p4⟩, ⟨_, _, p5⟩, ⟨_, _, p6⟩], hts =>
    simp only [List.map_cons, List.map_nil, Token.word] at hts
    cases hts
    exact ⟨p1, p2, rfl⟩

section

variable {list : Ref} {literal : String} {scope : Option Ref}

theorem exists_ofSource_mapping (hliteral : Lexeme .string literal.toList) :
    ∃ p q, ∀ bound, Lambda.ofSource bound (mappingText literal) =
      .ok (mappingLambda p q literal) := by
  have hv : Lexeme .ident "v".toList := lexeme_letter (c := 'v') rfl (by decide) (by decide)
  have hwords : PlainWords [(.ident, "v"), (.dot, "."), (.ident, "map"), (.lpar, "("),
      (.string, literal), (.rpar, ")")] := by
    simp [PlainWords]
  obtain ⟨ts, stop, hts, hsource⟩ := exists_ofSource_arrowText (List.forall_mem_singleton.mpr hv)
    (by decide) (hasWords_mapping hliteral) hwords
  obtain ⟨p, q, ht⟩ := exists_ofTokens_mapping stop hts
  exact ⟨p, q, hsource _ ht⟩

theorem isIdentifier_mappingText : Text.isIdentifier (mappingText literal) = false := by
  have htext : (mappingText literal).toList =
      'v' :: ' ' :: ("-> v.map(" ++ literal ++ ")").toList := by
    simp [mappingText, arrowText, String.toList_append]
  have hspace : Text.continuesIdentifier ' ' = false := by decide
  simp [Text.isIdentifier, htext, hspace]

theorem eval_mapping (call : Caller) (p q : Position) (host : Option Host) :
    (eval call ⟨Frame.bind ["v"] [.list list], scope, host⟩ (mappingTree p q literal)).unplaced =
      (callMember call ⟨Frame.bind ["v"] [.list list], scope, host⟩ (.list list) "map"
        [.text (stringValue literal)]).unplaced := by
  have hv : Frame.get ⟨Frame.bind ["v"] [.list list], scope, host⟩ "v" = pure (.list list) := rfl
  simp only [mappingTree, eval, unplaced_located, evalSteps, evalStep, evalStepParts, evalArgs,
    evalAll, evalLeaf, hv, pure_bind, bind_pure, Tree.written]

end

/-- A list and the text of a callback, under a scope: the list has the member `map`, no member is
registered under the texts, and the callback leaves the list as it is. -/
structure Mappable (depth : Nat) (list : Ref) (src literal : String) (scope : Option Ref)
    (m : Machine) : Prop where
  keys : m.host ≠ .keysOnly
  search : m.hosts m.host = none
  map : m.registration? (Value.list list).type.lineage "map" =
    some ⟨.builtin (.sequence .map), false⟩
  names : ∀ item ∈ m.heap.items list, m.registration? item.type.lineage src = none
  unnamed : m.registration? (Value.list list).type.lineage (mappingText literal) = none
  quoted : Lexeme .string literal.toList
  text : stringValue literal = src
  coherent : m.Coherent
  spared : ∀ n, m.SameButNotes n →
    Undisturbed list (m.heap.items list) (fun item => thrush depth item (.text src) [] scope)
      (m.heap.items list) n
  length : (m.heap.items list).length < depth

namespace Mappable

variable {depth : Nat} {list : Ref} {src literal : String} {scope : Option Ref} {m n : Machine}

theorem withScope_map (h : Mappable depth list src literal scope m) (hn : m.SameButNotes n)
    (id : Nat) :
    withScope scope
        (call (depth + 2) .plain (.bound id (.builtin (.sequence .map)) (.list list)) [.text src])
        n = thrushAll depth src scope (m.heap.items list) n := by
  refine withScope_eq (call_map (h.spared n hn) ?_ h.length) ?_
  · exact fun item hitem => (hn.registration?_eq _ _).trans (h.names item hitem)
  · exact (thrushAll_keepsSetting depth src scope _ n).scope

theorem exists_thrush_map (h : Mappable depth list src literal scope m) :
    ∃ n, m.SameButNotes n ∧ n.fresh = m.fresh + 1 ∧
      thrush (depth + 2) (.list list) (.text "map") [.text src] scope m =
        thrushAll depth src scope (m.heap.items list) n := by
  obtain ⟨id, n, hn, hfresh, hthrush⟩ :=
    exists_invoke_bound h.keys h.search (call (depth + 2)) (.list list) h.map rfl [.text src] scope
  exact ⟨n, hn, hfresh, hthrush.trans (h.withScope_map hn id)⟩

theorem exists_callMember_map (h : Mappable depth list src literal scope m)
    (locals : List (String × Value)) (hn : m.SameButNotes n) :
    ∃ k, m.SameButNotes k ∧ k.fresh = n.fresh + 1 ∧
      withScope scope (callMember (call (depth + 2)) ⟨locals, scope, some m.host⟩ (.list list) "map"
        [.text src]) n = thrushAll depth src scope (m.heap.items list) k := by
  have hmap : { n with scope }.registration? (Value.list list).type.lineage "map" = _ :=
    (hn.registration?_eq _ _).trans h.map
  obtain ⟨id, k, hk, hfresh, hfind⟩ := Member.exists_find_bound (m := { n with scope }) h.keys
    (hn.hosts ▸ h.search) (call (depth + 2)) (.list list) hmap rfl
  -- The member is looked up with the scope already in place, and called in the same state.
  have hstate : { k with scope } = k := congrArg (fun scope => { k with scope }) hk.scope.symm
  have hcall : callMember (call (depth + 2)) ⟨locals, scope, some m.host⟩ (.list list) "map"
      [.text src] { n with scope } = call (depth + 2) .plain
        (.bound id (.builtin (.sequence .map)) (.list list)) [.text src] k := by
    simp only [callMember, requireMember, hostOr, pure_bind, bind_assoc]
    exact bind_of_ok hfind _
  have hback : n.SameButNotes { k with scope := n.scope } := hk.under_scope n.scope
  refine ⟨_, hn.trans hback, hfresh, ?_⟩
  rw [← h.withScope_map (hn.trans hback) id]
  simp only [withScope, hcall, hstate]

theorem exists_thrush_mapping (h : Mappable depth list src literal scope m) :
    ∃ n, m.SameButNotes n ∧ n.fresh = m.fresh + 1 ∧
      (thrush (depth + 3) (.list list) (.text (mappingText literal)) [] scope).unplaced m =
        (thrushAll depth src scope (m.heap.items list)).unplaced n := by
  obtain ⟨p, q, hsource⟩ := exists_ofSource_mapping h.quoted
  have htext : Unnamed (call (depth + 3)) ((none : Option Host).getD m.host) (.list list)
      (mappingText literal) m :=
    .of_unregistered h.keys h.search h.unnamed rfl isIdentifier_mappingText
  obtain ⟨reported, hagrees, hthrush⟩ := exists_invoke_source h.coherent hsource htext [] scope
  have hreported : m.SameButNotes reported := hagrees.toSameButNotes
  let body := eval (call (depth + 2)) ⟨Frame.bind ["v"] [.list list], scope, some m.host⟩
    (mappingTree p q literal)
  have hbody : (withScope scope body).unplaced = (withScope scope (callMember (call (depth + 2))
      ⟨Frame.bind ["v"] [.list list], scope, some m.host⟩ (.list list) "map"
      [.text src])).unplaced := by
    rw [unplaced_withScope, eval_mapping, ← unplaced_withScope, h.text]
  obtain ⟨last, hlast, hfresh, hmember⟩ :=
    h.exists_callMember_map (Frame.bind ["v"] [.list list]) hreported
  refine ⟨last, hlast, hfresh.trans (congrArg (· + 1) hagrees.fresh), ?_⟩
  calc (thrush (depth + 3) (.list list) (.text (mappingText literal)) [] scope).unplaced m
      = (withScope scope body).unplaced reported := unplaced_congr_at hthrush
    _ = _ := congrFun hbody reported
    _ = (thrushAll depth src scope (m.heap.items list)).unplaced last := unplaced_congr_at hmember

/-- Both ways end like the text on one item after another once an identity has been taken for the
member, which is made anew on each way. -/
theorem endsAlike (h : Mappable depth list src literal scope m) :
    EndsAlike (thrushAll depth src scope (m.heap.items list) m.afterFresh)
      (thrush (depth + 2) (.list list) (.text "map") [.text src] scope m) ∧
    EndsAlike ((thrushAll depth src scope (m.heap.items list)).unplaced m.afterFresh)
      ((thrush (depth + 3) (.list list) (.text (mappingText literal)) [] scope).unplaced m) := by
  obtain ⟨n, hn, hfresh, hmap⟩ := h.exists_thrush_map
  obtain ⟨k, hk, hfresh', hmapping⟩ := h.exists_thrush_mapping
  have hall := thrushAll_oblivious depth src scope (m.heap.items list)
  rw [hmap, hmapping]
  exact ⟨hall _ _ (.of_fresh h.coherent hn hfresh),
    hall.unplaced _ _ (.of_fresh h.coherent hk hfresh')⟩

end Mappable

/-- A list of 1 and 2, and a scope where `k` is 10. -/
def Machine.withList : Machine :=
  { Machine.initial with
    heap := { cells := #[.record [], .list #[.ofInt 1, .ofInt 2],
      .dict [⟨.text "k", .text "k", .ofInt 10⟩]] } }

namespace Machine

variable {n : Machine}

end Machine

end StringLambda
