import StringLambda.Proofs.Evaluation.Coincidence
import StringLambda.Proofs.Forms.Inference

namespace StringLambda

open Run

/-! Lambdas that are expressions are closed: what is no parameter of them is bound outside. -/

theorem Derives.arrowFree {attached : Bool} {s : Symbol} {ts : List Token} {out : List Tree}
    (h : Derives attached s ts out) : ∀ t ∈ out, t.ArrowFree := by
  induction h with
  | joined _ hjoins => cases hjoins <;> simp_all
  | _ => simp_all

theorem arrowFree_of_ofTokens {ts : List Token} {t : Tree} (h : Tree.ofTokens ts = .ok t) :
    t.ArrowFree := by
  obtain ⟨_, ⟨_, -, d⟩, -⟩ := Parser.reads_of_ofTokens h
  exact d.arrowFree t (List.mem_singleton_self t)

namespace Lambda.Compiles

variable {bound : String → Bool} {source : String} {ts : List Token} {f : Lambda}

theorem arrowFree (h : Compiles bound source ts f) (hform : f.form = .implicit) :
    f.body.ArrowFree := by
  cases h with
  | implicit _ _ _ hbody => exact arrowFree_of_ofTokens hbody
  | _ => cases hform

theorem mem_params_or_bound (h : Compiles bound source ts f) (hform : f.form = .implicit)
    {x : String} (hx : x ∈ f.body.freeNames) : x ∈ f.params ∨ bound x = true := by
  rw [h.params_of_implicit hform, mem_freeParams]
  cases hb : bound x with
  | false => exact .inl ⟨hx, rfl⟩
  | true => exact .inr rfl

end Lambda.Compiles

theorem Run.global?_of_compile {source : String} {names : List Key} {m after : Machine} {id : Nat}
    {f : Lambda} (h : compile source names m = .ok (id, f) after) (x : String) :
    after.global? x = m.global? x := by
  rcases compile_cases source names m with ⟨_, _, -, -, hm⟩ | ⟨-, ⟨_, -, hm⟩ | ⟨_, -, hm⟩⟩
  · cases hm.symm.trans h
    rfl
  · cases hm.symm.trans h
    rfl
  · cases hm.symm.trans h

/-- An expression is compiled, after any history of steps since it has been compiled anew, and is
called later with any arguments, under a scope that holds the outer names it was compiled with,
while its globals are still registered. Its body takes nothing from the call but the host and the
variables that it reads, and each of these is a parameter or found in the scope or among the
globals, except for an outer name that the call itself has taken out of the scope. -/
theorem call_closed {source : String} {names : List Key} {id : Nat} {f : Lambda} {after : Machine}
    (m : Machine) (history : List CacheStep) (later : Machine) (context : Context) (depth : Nat)
    (args : List Value)
    (hmiss : ∀ id f, m.cache.get? (.ofNames source names) = some (id, f) → m.isStale f = true)
    (hcompile : compile source names (m.afterSteps history) = .ok (id, f) after)
    (hform : f.form = .implicit) (hglobals : after.GlobalsLe later)
    (hnames : ∀ x, .text x ∈ names → (later.scoped? context.scope x).isSome = true) :
    let frame : Frame := ⟨Frame.bind f.params args, context.scope, context.host⟩
    let running : Machine := { later with scope := context.scope }
    let reads := f.body.reads (call depth) frame running
    call (depth + 1) context (.lambda id f) args later =
        withScope context.scope (eval (call depth) frame f.body) later ∧
      (∀ other : Frame, other.host = frame.host → frame.AgreeOn other reads →
        eval (call depth) frame f.body running = eval (call depth) other f.body running) ∧
      ∀ r ∈ reads, (∃ v, frame.get r.1 r.2 = .ok v r.2) ∨
        (.text r.1 ∈ names ∧ (later.scoped? context.scope r.1).isSome = true ∧
          r.2.scoped? context.scope r.1 = none) := by
  intro frame running reads
  have hnow : (m.afterSteps history).Fresh (.ofNames source names) :=
    (Machine.Fresh.of_isStale hmiss).afterSteps history
  obtain ⟨ts, -, hts⟩ :=
    Lambda.ofSource_eq_ok_iff.mp (hnow.compile_iff.mp ⟨id, after, hcompile⟩)
  have hf := Lambda.compiles_of_ofTokens hts
  have hbody := hf.arrowFree hform
  refine ⟨congrFun (call_lambda depth context id f args) later,
    fun other hhost hagree => (hbody.coincides hhost.symm).eval running hagree, fun r hr => ?_⟩
  obtain ⟨hmem, hkept⟩ := hbody.readsNames.eval _ r hr
  rw [Frame.exists_get_eq_ok_iff]
  rcases hf.mem_params_or_bound hform hmem with hparam | hbound
  · exact .inl (.inl (Option.isSome_iff_ne_none.mpr (Frame.lookup_bind_ne_none hparam args)))
  · simp only [Machine.binds, NameSet.contains_ofList, Bool.or_eq_true,
      List.contains_iff_mem] at hbound
    rcases hbound with hname | hglobal
    · cases hscoped : r.2.scoped? context.scope r.1 with
      | none => exact .inr ⟨hname, hnames r.1 hname, rfl⟩
      | some v => exact .inl (.inr (.inl rfl))
    · refine .inl (.inr (.inr ?_))
      rw [← global?_of_compile hcompile] at hglobal
      rw [Machine.global?, hkept]
      exact hglobals _ hglobal

/-- `x + y` where `x` is in the scope, called without an argument. -/
theorem call_closed_sum :
    ∃ id f after, compile "x + y" [.text "x"] .initial = .ok (id, f) after ∧ f.params = ["y"] ∧
      let running : Machine :=
        { after with heap := Machine.withEntry.heap, scope := some ⟨1, none⟩ }
      let frame : Frame := ⟨Frame.bind f.params [], some ⟨1, none⟩, none⟩
      (f.body.reads (call 0) frame running).map Prod.fst = ["x", "y"] ∧
        ∀ r ∈ f.body.reads (call 0) frame running, ∃ v, frame.get r.1 r.2 = .ok v r.2 := by
  let body : Tree := .node .add (some ⟨1, 1⟩) [.leaf .ident "x", .leaf .op "+", .leaf .ident "y"]
  let bound := Machine.initial.binds (.ofList [.text "x"])
  have hts : tokenize "x + y" = .ok [⟨.ident, "x", ⟨1, 1⟩⟩, ⟨.plus, "+", ⟨1, 3⟩⟩,
      ⟨.ident, "y", ⟨1, 5⟩⟩, .stop ⟨1, 6⟩] := rfl
  have hsource : Lambda.ofSource bound "x + y" =
      .ok ⟨"x + y", Lambda.freeParams bound body, body, .implicit⟩ :=
    Lambda.ofSource_eq_ok_iff.mpr ⟨_, hts, rfl⟩
  rw [show Lambda.freeParams bound body = ["y"] by decide +kernel] at hsource
  have h := compile_of_ofSource "x + y" [.text "x"] .initial rfl hsource
  generalize Machine.initial.remember _ _ = after at h
  let later : Machine := { after with heap := Machine.withEntry.heap }
  let running : Machine := { later with scope := some ⟨1, none⟩ }
  have hnames : ∀ x, Key.text x ∈ [Key.text "x"] →
      (later.scoped? (some ⟨1, none⟩) x).isSome = true := by
    intro x hx
    obtain rfl : x = "x" := by simpa using hx
    rfl
  have hreads : body.reads (call 0) ⟨[("y", .null)], some ⟨1, none⟩, none⟩ running =
      [("x", running), ("y", running)] := rfl
  obtain ⟨-, -, hclosed⟩ := call_closed .initial [] later ⟨some ⟨1, none⟩, none⟩ 0 [] nofun h rfl
    (fun _ hx => hx) hnames
  refine ⟨_, _, after, h, rfl, congrArg (List.map Prod.fst) hreads, fun r hr => ?_⟩
  refine (hclosed r hr).resolve_right fun ⟨_, hkept, hnone⟩ => ?_
  have hr : r ∈ [("x", running), ("y", running)] := hreads ▸ hr
  have hheap : r.2.heap = later.heap := by
    simp only [List.mem_cons, List.not_mem_nil, or_false] at hr
    rcases hr with rfl | rfl <;> rfl
  rw [Machine.scoped?, hheap, ← Machine.scoped?] at hnone
  rw [hnone] at hkept
  cases hkept

/-- `[y.clear(), x]` takes `x` out of the scope before it is read, and `g + x` is remembered with
the parameters that it had while `g` was a global. -/
theorem exists_call_not_closed :
    (∃ id f after, compile "[y.clear(), x]" [.text "x"] .withEntry = .ok (id, f) after ∧
      f.form = .implicit ∧ (after.scoped? (some ⟨1, none⟩) "x").isSome = true ∧
      stopOf (call 3 ⟨some ⟨1, none⟩, none⟩ (.lambda id f) [.dict ⟨1, none⟩] after) =
        some (.fault (.evaluation (.unresolvedName "x") (some ⟨1, 1⟩)))) ∧
    ∃ id f after, compile "g + x" [] .withoutGlobal = .ok (id, f) after ∧ f.form = .implicit ∧
      stopOf (call 1 .plain (.lambda id f) [] after) =
        some (.fault (.evaluation (.unresolvedName "g") (some ⟨1, 1⟩))) := by
  constructor
  · let body : Tree := .node .array (some ⟨1, 1⟩) [.node .chain (some ⟨1, 2⟩) [.leaf .ident "y",
      .node .method (some ⟨1, 3⟩) [.leaf .name "clear", .node .args (some ⟨1, 3⟩) []]],
      .leaf .ident "x"]
    let bound := Machine.withEntry.binds (.ofList [.text "x"])
    have hts : tokenize "[y.clear(), x]" = .ok [⟨.lsqb, "[", ⟨1, 1⟩⟩, ⟨.ident, "y", ⟨1, 2⟩⟩,
        ⟨.dot, ".", ⟨1, 3⟩⟩, ⟨.ident, "clear", ⟨1, 4⟩⟩, ⟨.lpar, "(", ⟨1, 9⟩⟩,
        ⟨.rpar, ")", ⟨1, 10⟩⟩, ⟨.comma, ",", ⟨1, 11⟩⟩, ⟨.ident, "x", ⟨1, 13⟩⟩,
        ⟨.rsqb, "]", ⟨1, 14⟩⟩, .stop ⟨1, 15⟩] := rfl
    have hsource : Lambda.ofSource bound "[y.clear(), x]" =
        .ok ⟨"[y.clear(), x]", Lambda.freeParams bound body, body, .implicit⟩ :=
      Lambda.ofSource_eq_ok_iff.mpr ⟨_, hts, rfl⟩
    rw [show Lambda.freeParams bound body = ["y"] by decide +kernel] at hsource
    have h := compile_of_ofSource "[y.clear(), x]" [.text "x"] .withEntry rfl hsource
    exact ⟨_, _, _, h, rfl, rfl, rfl⟩
  · obtain ⟨id, last, h⟩ := exists_compile_withoutGlobal
    have hglobal : last.global? "g" = none :=
      (global?_of_compile h "g").trans (Machine.global?_dropGlobal _ "g")
    let frame : Frame := ⟨[("x", .null)], none, none⟩
    let running : Machine := { last with scope := none }
    have hget : eval (call 0) frame (.leaf .ident "g") running =
        .error (.fault (.evaluation (.unresolvedName "g") none)) running := by
      rw [eval, evalLeaf, Frame.get_eq, Frame.find?, show running.global? "g" = none from hglobal]
      rfl
    have heval : eval (call 0) frame Lambda.globalSum.body running =
        .error (.fault (.evaluation (.unresolvedName "g") (some ⟨1, 1⟩))) running := by
      change located (some ⟨1, 1⟩) (eval (call 0) frame (.leaf .ident "g") >>= _) running = _
      rw [located, mapStop, bind_of_error hget _]
      rfl
    refine ⟨id, _, last, h, rfl, ?_⟩
    have hcall : call 1 .plain (.lambda id .globalSum) [] last =
        withScope none (eval (call 0) frame Lambda.globalSum.body) last :=
      congrFun (call_lambda 0 .plain id .globalSum []) last
    rw [hcall, withScope, heval]
    rfl

end StringLambda
