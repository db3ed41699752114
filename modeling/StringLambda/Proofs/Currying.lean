import StringLambda.Proofs.Evaluation.Alike
import StringLambda.Proofs.Forms.Arrow
import StringLambda.Proofs.Parsing.Renaming

namespace StringLambda

open StringLambda.Parser

/-! A lambda that takes its parameters one at a time: each argument but the last makes the function
for the next one, and the last argument runs the body as all arguments at once would have. -/

/-- The source of a lambda that takes its parameters one at a time. -/
def curriedText (params : List String) (body : String) : String :=
  params.foldr (fun p text => arrowText [p] text) body

@[simp] theorem curriedText_nil (body : String) : curriedText [] body = body := rfl

@[simp] theorem curriedText_cons (p : String) (ps : List String) (body : String) :
    curriedText (p :: ps) body = arrowText [p] (curriedText ps body) := rfl

def curriedWords (words : List (Kind × String)) : List String → List (Kind × String)
  | [] => words
  | p :: ps => (.ident, p) :: (.arrow, "->") :: curriedWords words ps

/-- The body behind the parameters that are still to come, each with an arrow of its own. -/
def Tree.curried (body : Tree) : List String → Tree
  | [] => body
  | p :: ps => .node .arrow none [.node .paramlist none [.leaf .ident p], body.curried ps]

section

variable {params : List String} {body : String} {words : List (Kind × String)}

theorem hasWords_curriedText (hparams : ∀ p ∈ params, Lexeme .ident p.toList)
    (hbody : HasWords body.toList [] words) :
    HasWords (curriedText params body).toList [] (curriedWords words params) := by
  induction params with
  | nil => exact hbody
  | cons p ps ih =>
      rw [List.forall_mem_cons] at hparams
      exact hasWords_arrowText (by simpa using hparams.1) (ih hparams.2)

namespace Lambda

variable {p : String} {ps : List String} {ts : List Token} {stop : Token}

theorem cutAtArrows_curried (hts : ts.map Token.word = curriedWords words (p :: ps)) :
    ∃ first rest, first.word = (.ident, p) ∧ rest.map Token.word = curriedWords words ps ∧
      cutAtArrows (ts ++ [stop]) =
        ([first], (cutAtArrows (rest ++ [stop])).1 :: (cutAtArrows (rest ++ [stop])).2) := by
  obtain ⟨first, rest, rfl, hfirst, hrest⟩ := List.map_eq_cons_iff.mp hts
  obtain ⟨arrow, rest, rfl, harrow, hrest⟩ := List.map_eq_cons_iff.mp hrest
  have hident : ∀ t ∈ [first], t.kind ≠ .arrow := by
    rw [List.forall_mem_singleton, show first.kind = .ident from congrArg Prod.fst hfirst]
    simp
  refine ⟨first, rest, hfirst, hrest, ?_⟩
  exact cutAtArrows_append hident (congrArg Prod.fst harrow)

theorem arrowParts_curried (hstop : stop.kind = .eof) (hwords : PlainWords words)
    (hts : ts.map Token.word = curriedWords words (p :: ps)) :
    ∃ bs, bs.map Token.word = words ∧ (cutAtArrows (ts ++ [stop])).2 ≠ [] ∧
      ∀ t, Tree.ofTokens (bs ++ [stop]) = .ok t →
        arrowParts stop (cutAtArrows (ts ++ [stop])).1 (cutAtArrows (ts ++ [stop])).2 =
          .ok ([p], t.curried ps) := by
  induction ps generalizing p ts with
  | nil =>
      obtain ⟨first, bs, hfirst, hbs, hcut⟩ := cutAtArrows_curried hts
      have hbody : ∀ t ∈ bs ++ [stop], t.kind ≠ .arrow := by
        simp only [List.forall_mem_append, List.forall_mem_singleton]
        exact ⟨fun t ht => (hwords _ (hbs ▸ List.mem_map_of_mem ht)).1, by simp [hstop]⟩
      rw [hcut, cutAtArrows_of_none hbody]
      refine ⟨bs, hbs, List.cons_ne_nil _ _, fun t ht => ?_⟩
      have hparams : parameters ([first] ++ [stop]) = .ok [p] :=
        parameterNames_eq hstop (congrArg (fun w => [w]) hfirst) (by simp) (by simp)
      simp only [arrowParts, hparams, List.isEmpty_nil, if_true,
        if_neg (current_kind_of_ofTokens ht), ht]
      rfl
  | cons q ps ih =>
      obtain ⟨first, rest, hfirst, hrest, hcut⟩ := cutAtArrows_curried hts
      obtain ⟨bs, hbs, hmore, hparts⟩ := ih hrest
      rw [hcut]
      refine ⟨bs, hbs, List.cons_ne_nil _ _, fun t ht => ?_⟩
      have hparams : parameters ([first] ++ [stop]) = .ok [p] :=
        parameterNames_eq hstop (congrArg (fun w => [w]) hfirst) (by simp) (by simp)
      have hnested : (cutAtArrows (rest ++ [stop])).2.isEmpty = false := by
        simpa using hmore
      rw [arrowParts, hparams, hnested]
      simp only [Bool.false_eq_true, if_false, hparts t ht]
      rfl

end Lambda

theorem exists_ofSource_curriedText {p : String} {ps : List String}
    (hparams : ∀ q ∈ p :: ps, Lexeme .ident q.toList) (hbody : HasWords body.toList [] words)
    (hwords : PlainWords words) :
    ∃ bs stop, bs.map Token.word = words ∧
      ∀ t, Tree.ofTokens (bs ++ [.stop stop]) = .ok t →
        ∀ bound, Lambda.ofSource bound (curriedText (p :: ps) body) =
          .ok ⟨curriedText (p :: ps) body, [p], t.curried ps, .arrow⟩ := by
  obtain ⟨ts, hts, hlexes⟩ := (hasWords_curriedText hparams hbody).exists_tokens
  have htokens := tokenize_of_lexes hlexes
  generalize Position.behind (curriedText (p :: ps) body).toList = stop at htokens
  obtain ⟨bs, hbs, hcut, hparts⟩ :=
    Lambda.arrowParts_curried (show (Token.stop stop).kind = .eof from rfl) hwords hts
  refine ⟨bs, stop, hbs, fun t ht bound => ?_⟩
  refine Lambda.ofSource_eq_ok_iff.mpr ⟨_, htokens, ?_⟩
  refine Lambda.ofTokens_eq_ok_iff_compiles.mpr ⟨?_, .arrow hcut ?_⟩
  · obtain ⟨first, rest, rfl, hfirst, -⟩ := List.map_eq_cons_iff.mp hts
    have hkind : first.kind = .ident := congrArg Prod.fst hfirst
    simp [current, hkind]
  · rw [List.getLastD_concat]
    exact hparts t ht

end

def ArrowFree (body : String) : Prop :=
  ∀ ts, tokenize body = .ok ts → ∀ t ∈ ts, t.kind ≠ .arrow

theorem exists_words_of_ofSource {params : List String} {body : String} {bound : String → Bool}
    {f : Lambda} (hparams : ∀ p ∈ params, Lexeme .ident p.toList) (harrow : ArrowFree body)
    (hf : Lambda.ofSource bound (arrowText params body) = .ok f) :
    ∃ words, HasWords body.toList [] words ∧ PlainWords words := by
  obtain ⟨ts, hts, -⟩ := Lambda.ofSource_eq_ok_iff.mp hf
  have hsource : (arrowText params body).toList =
      (", ".intercalate params ++ " -> ").toList ++ body.toList := by
    simp [arrowText, String.toList_append]
  obtain ⟨us, hus⟩ := (hasWords_arrowFront hparams).exists_lexes hsource hts
  have hbody := HasWords.of_lexes hus (.inl rfl)
  obtain ⟨vs, hvs, hlexes⟩ := hbody.exists_tokens
  refine ⟨us.map Token.word, hbody, ?_⟩
  rw [← hvs]
  rintro w hw
  obtain ⟨v, hv, rfl⟩ := List.mem_map.mp hw
  refine ⟨?_, (hlexes.lexeme_of_mem v hv).kind_ne_eof⟩
  exact harrow _ (tokenize_of_lexes hlexes) v (List.mem_append_left _ hv)

/-- Takes the arguments one at a time, each at any time and in any activation. All arguments but
the last only make the next function, and the last one ends as the run. -/
def Value.TakesInTurn (run : Nat → Run Value) : List Value → Value → Prop
  | [], _ => False
  | [v], f => ∀ depth context, (call depth context f [v]).unplaced = (run depth).unplaced
  | v :: w :: vs, f => ∀ m, ∃ next,
      (∀ depth context,
        call (depth + 1) context f [v] m = .ok next { m with fresh := m.fresh + 1 }) ∧
      next.TakesInTurn run (w :: vs)

theorem Value.TakesInTurn.congr {run other : Nat → Run Value} {vs : List Value} {f : Value}
    (h : f.TakesInTurn run vs) (heq : ∀ depth, (run depth).unplaced = (other depth).unplaced) :
    f.TakesInTurn other vs := by
  induction vs generalizing f with
  | nil => exact h
  | cons v vs ih =>
      cases vs with
      | nil => exact fun depth context => (h depth context).trans (heq depth)
      | cons w vs =>
          intro m
          obtain ⟨next, hcall, hnext⟩ := h m
          exact ⟨next, hcall, ih hnext⟩

/-- Calls a function with the first argument, what it gives with the next one, and so on. -/
def callEach (depth : Nat) (context : Context) : Value → List Value → Run Value
  | f, [] => pure f
  | f, v :: vs => do
    callEach depth context (← call depth context f [v]) vs

/-- Calls right after one another take an identity for each function between them, and nothing
else, before the run. -/
theorem Value.TakesInTurn.callEach_eq {run : Nat → Run Value} {v : Value} {vs : List Value}
    {f : Value} (h : f.TakesInTurn run (v :: vs)) (depth : Nat) (context : Context) (m : Machine) :
    (callEach (depth + 1) context f (v :: vs)).unplaced m =
      (run (depth + 1)).unplaced { m with fresh := m.fresh + vs.length } := by
  induction vs generalizing v f m with
  | nil =>
      simp only [callEach, bind_pure, List.length_nil, Nat.add_zero]
      rw [h]
  | cons w vs ih =>
      obtain ⟨next, hcall, hnext⟩ := h m
      have hrest := ih hnext { m with fresh := m.fresh + 1 }
      rw [List.length_cons, Nat.add_comm vs.length 1, ← Nat.add_assoc, ← hrest]
      simp only [callEach, Run.unplaced, bind, EStateM.bind, hcall]

theorem Frame.bind_cons {ps : List String} {vs : List Value} (hlen : ps.length = vs.length)
    (p : String) (v : Value) : bind (p :: ps) (v :: vs) = bind ps vs ++ [(p, v)] := by
  have hcons : (p :: ps).length = (v :: vs).length := congrArg Nat.succ hlen
  rw [bind_eq_zip hlen, bind_eq_zip hcons, List.zip_cons_cons, List.reverse_cons]

/-- A closure of a curried body goes on with the bindings, the scope and the host that it was made
under, as a closure that takes all parameters at once. -/
theorem takesInTurn_closure {t : Tree} {ps : List String} {vs : List Value}
    (hlen : ps.length = vs.length) (p : String) (v : Value) (locals : List (String × Value))
    (scope : Option Ref) (host : Option Host) (id other : Nat) :
    (Value.closure id [p] (t.curried ps) locals scope host).TakesInTurn
      (fun depth => call depth .plain (.closure other (p :: ps) t locals scope host) (v :: vs))
      (v :: vs) := by
  -- The closure that the first call makes binds one more argument, under an identity of its own.
  induction ps generalizing vs p v locals id with
  | nil =>
      rw [List.length_nil, eq_comm, List.length_eq_zero_iff] at hlen
      subst hlen
      intro depth context
      cases depth <;> rfl
  | cons q ps ih =>
      cases vs with
      | nil => cases hlen
      | cons w vs =>
          intro m
          refine ⟨_, fun depth context => rfl, ?_⟩
          refine (ih (Nat.succ.inj hlen) q w ((p, v) :: locals) _).congr fun depth => ?_
          cases depth with
          | zero => rfl
          | succ depth =>
              simp only [call_closure, Frame.bind_cons hlen, List.append_assoc,
                List.singleton_append]

/-- A lambda that takes its parameters one at a time compiles where the lambda that takes them all
at once does, and to the same end. The scope and the host are those of the first call. -/
theorem takesInTurn_curriedText {params : List String} {body : String} {bound : String → Bool}
    {f : Lambda} (hlen : 2 ≤ params.length) (hparams : ∀ p ∈ params, Lexeme .ident p.toList)
    (hnodup : params.Nodup) (harrow : ArrowFree body)
    (hf : Lambda.ofSource bound (arrowText params body) = .ok f) :
    ∃ g, (∀ names, Lambda.ofSource names (curriedText params body) = .ok g) ∧
      ∀ v vs, (v :: vs).length = params.length → ∀ context id other m, ∃ next,
        (∀ depth, call (depth + 1) context (.lambda id g) [v] m =
          .ok next { m with fresh := m.fresh + 1 }) ∧
        next.TakesInTurn (fun depth => call depth context (.lambda other f) (v :: vs)) vs := by
  obtain ⟨words, hbody, hwords⟩ := exists_words_of_ofSource hparams harrow hf
  obtain ⟨ts, stop, t, hts, ht, rfl⟩ :=
    exists_of_ofSource_arrowText hparams hnodup hbody hwords hf
  rcases params with _ | ⟨p, _ | ⟨q, ps⟩⟩
  case nil | cons.nil => simp at hlen
  obtain ⟨us, stop', hus, hcompiles⟩ := exists_ofSource_curriedText hparams hbody hwords
  have heof : ∀ bs : List Token, bs.map Token.word = words → ∀ t ∈ bs, t.kind ≠ .eof :=
    fun bs hbs t ht => (hwords _ (hbs ▸ List.mem_map_of_mem ht)).2
  have hrenamed : Renamed (· = ·) false ts us :=
    Renamed.of_words (hts.trans hus.symm) (fun _ _ _ => rfl) false
  have d := (ofTokens_eq_ok_iff (heof ts hts) stop t).mp ht
  obtain ⟨u, du, halike⟩ := exists_tree (d.renamed hrenamed (.inl rfl))
  have hu := (ofTokens_eq_ok_iff (heof us hus) stop' u).mpr du
  refine ⟨_, hcompiles u hu, fun v vs hvs context id other m => ?_⟩
  cases vs with
  | nil => simp at hvs
  | cons w vs =>
      have hrest : (q :: ps).length = (w :: vs).length := (Nat.succ.inj hvs).symm
      refine ⟨_, fun depth => rfl, ?_⟩
      refine (takesInTurn_closure (Nat.succ.inj hrest) q w [(p, v)] context.scope context.host
        m.fresh 0).congr fun depth => ?_
      cases depth with
      | zero => rfl
      | succ depth =>
          have hagree : ∀ frame, Frame.Agree (· = ·) frame frame :=
            fun frame => ⟨fun x y hxy => congrArg frame.get hxy, rfl⟩
          simp only [call_lambda, call_closure, Run.unplaced_withScope, Frame.bind_cons hrest]
          rw [eval_alike (hagree _) halike]

/-- `x -> y -> x + y` takes 1 and then 2 as `x, y -> x + y` takes both. -/
theorem takesInTurn_curriedText_sum :
    ∃ f g, Lambda.ofSource (fun _ => false) "x, y -> x + y" = .ok f ∧
      Lambda.ofSource (fun _ => false) "x -> y -> x + y" = .ok g ∧
      ∀ context m, ∃ next,
        (∀ depth, call (depth + 1) context (.lambda 0 g) [.ofInt 1] m =
          .ok next { m with fresh := m.fresh + 1 }) ∧
        next.TakesInTurn (fun depth => call depth context (.lambda 0 f) [.ofInt 1, .ofInt 2])
          [.ofInt 2] := by
  have hx : Lexeme .ident "x".toList := lexeme_letter (c := 'x') rfl (by decide) (by decide)
  have hy : Lexeme .ident "y".toList := lexeme_letter (c := 'y') rfl (by decide) (by decide)
  have htokens : tokenize "x + y" = .ok [⟨.ident, "x", ⟨1, 1⟩⟩, ⟨.plus, "+", ⟨1, 3⟩⟩,
      ⟨.ident, "y", ⟨1, 5⟩⟩, .stop ⟨1, 6⟩] := by
    rfl
  have harrow : ArrowFree "x + y" := by
    intro ts hts
    cases htokens.symm.trans hts
    decide
  have htext : arrowText ["x", "y"] "x + y" = "x, y -> x + y" := by decide
  have hcurried : curriedText ["x", "y"] "x + y" = "x -> y -> x + y" := by decide
  have hwhole : tokenize "x, y -> x + y" = .ok [⟨.ident, "x", ⟨1, 1⟩⟩, ⟨.comma, ",", ⟨1, 2⟩⟩,
      ⟨.ident, "y", ⟨1, 4⟩⟩, ⟨.arrow, "->", ⟨1, 6⟩⟩, ⟨.ident, "x", ⟨1, 9⟩⟩, ⟨.plus, "+", ⟨1, 11⟩⟩,
      ⟨.ident, "y", ⟨1, 13⟩⟩, .stop ⟨1, 14⟩] := by
    rfl
  have hf : Lambda.ofSource (fun _ => false) "x, y -> x + y" =
      .ok ⟨"x, y -> x + y", ["x", "y"], .node .add (some ⟨1, 9⟩)
        [.leaf .ident "x", .leaf .op "+", .leaf .ident "y"], .arrow⟩ :=
    Lambda.ofSource_eq_ok_iff.mpr ⟨_, hwhole, rfl⟩
  rw [← htext] at hf
  obtain ⟨g, hg, hcall⟩ := takesInTurn_curriedText (by decide)
    (by simpa using ⟨hx, hy⟩) (by decide) harrow hf
  rw [htext] at hf
  refine ⟨_, g, hf, hcurried ▸ hg _, fun context m => ?_⟩
  have hcalls := hcall (.ofInt 1) [.ofInt 2] rfl context 0 0 m
  rw [htext] at hcalls
  exact hcalls

end StringLambda
