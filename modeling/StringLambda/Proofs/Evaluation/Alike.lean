import StringLambda.Call
import StringLambda.Tree.Alike

namespace StringLambda

/-! Trees that are alike have the same value and the same effects where related variables are bound
alike. Only the places of errors may differ. -/

/-- A reason to stop, without the place that an evaluation error has been given. -/
def Stop.unplaced : Stop → Stop
  | .fault (.evaluation issue _) => .fault (.evaluation issue none)
  | stop => stop

namespace Run

variable {α β : Type}

def unplaced (act : Run α) : Run α := fun m =>
  match act m with
  | .ok a n => .ok a n
  | .error stop n => .error stop.unplaced n

@[simp] theorem unplaced_pure (a : α) : unplaced (pure a : Run α) = pure a := rfl

@[simp] theorem unplaced_raise (issue : EvalIssue) :
    unplaced (raise issue : Run α) = raise issue := rfl

@[simp] theorem unplaced_defect (d : Defect) : unplaced (defect d : Run α) = defect d := rfl

theorem unplaced_bind (act : Run α) (f : α → Run β) :
    unplaced (act >>= f) = unplaced act >>= fun a => unplaced (f a) := by
  funext m
  simp only [unplaced, bind, EStateM.bind]
  cases act m <;> rfl

@[simp] theorem unplaced_located (place : Option Position) (act : Run α) :
    unplaced (located place act) = unplaced act := by
  funext m
  simp only [unplaced, located, mapStop]
  cases act m with
  | ok a n => rfl
  | error stop n =>
      cases stop with
      | unfinished => rfl
      | fault f =>
          cases f with
          | evaluation issue p => cases p <;> rfl
          | _ => rfl

theorem unplaced_withScope (scope : Option Ref) (act : Run α) :
    unplaced (withScope scope act) = withScope scope (unplaced act) := by
  funext m
  simp only [unplaced, withScope]
  cases act { m with scope } <;> rfl

theorem unplaced_congr_at {act other : Run α} {m n : Machine} (h : act m = other n) :
    unplaced act m = unplaced other n := by
  simp only [unplaced, h]

theorem unplaced_bind_congr {act other : Run α} {f g : α → Run β}
    (h : unplaced act = unplaced other) (hfg : ∀ a, unplaced (f a) = unplaced (g a)) :
    unplaced (act >>= f) = unplaced (other >>= g) := by
  rw [unplaced_bind, unplaced_bind, h]
  exact congrArg _ (funext hfg)

end Run

section

variable (call : Caller) {frame other : Frame} (hhost : frame.host = other.host)
include hhost

theorem requireMember_congr (receiver : Value) (name : String) :
    requireMember call frame receiver name = requireMember call other receiver name := by
  simp only [requireMember, hhost]

theorem readField_congr (receiver : Value) (name : String) :
    readField call frame receiver name = readField call other receiver name := by
  simp only [readField, requireMember_congr call hhost]

theorem callMember_congr (receiver : Value) (name : String) (args : List Value) :
    callMember call frame receiver name args = callMember call other receiver name args := by
  simp only [callMember, requireMember_congr call hhost]

end

section

variable {related : String → String → Prop} {call : Caller} {frame other : Frame}
  {p q : Option Position} {cs ds : List Tree}
  (hcs : AllAlike related cs ds)
  (hchildren : ∀ t u, t ∈ cs → Alike related t u →
    (eval call frame t).unplaced = (eval call other u).unplaced)
include hcs hchildren

theorem eval_ternary_alike :
    (eval call frame (.node .ternary p cs)).unplaced =
      (eval call other (.node .ternary q ds)).unplaced := by
  rcases hcs with _ | ⟨hc, _ | ⟨hy, _ | ⟨hn, _ | _⟩⟩⟩
  case cons.cons.cons.nil =>
    simp only [eval, Run.unplaced_located]
    refine Run.unplaced_bind_congr (hchildren _ _ (by simp) hc) fun v => ?_
    refine Run.unplaced_bind_congr rfl fun h => ?_
    cases h.truthy v with
    | true => exact hchildren _ _ (by simp) hy
    | false => exact hchildren _ _ (by simp) hn
  all_goals simp only [eval, Run.unplaced_located]

theorem eval_nullish_alike :
    (eval call frame (.node .nullish p cs)).unplaced =
      (eval call other (.node .nullish q ds)).unplaced := by
  rcases hcs with _ | ⟨hl, _ | ⟨hr, _ | _⟩⟩
  case cons.cons.nil =>
    simp only [eval, Run.unplaced_located]
    refine Run.unplaced_bind_congr (hchildren _ _ (by simp) hl) fun v => ?_
    cases v with
    | null => exact hchildren _ _ (by simp) hr
    | _ => rfl
  all_goals simp only [eval, Run.unplaced_located]

theorem eval_or_alike :
    (eval call frame (.node .or p cs)).unplaced =
      (eval call other (.node .or q ds)).unplaced := by
  rcases hcs with _ | ⟨hl, _ | ⟨hr, _ | _⟩⟩
  case cons.cons.nil =>
    simp only [eval, Run.unplaced_located]
    refine Run.unplaced_bind_congr (hchildren _ _ (by simp) hl) fun v => ?_
    refine Run.unplaced_bind_congr rfl fun h => ?_
    cases h.truthy v with
    | true => rfl
    | false => exact hchildren _ _ (by simp) hr
  all_goals simp only [eval, Run.unplaced_located]

theorem eval_and_alike :
    (eval call frame (.node .and p cs)).unplaced =
      (eval call other (.node .and q ds)).unplaced := by
  rcases hcs with _ | ⟨hl, _ | ⟨hr, _ | _⟩⟩
  case cons.cons.nil =>
    simp only [eval, Run.unplaced_located]
    refine Run.unplaced_bind_congr (hchildren _ _ (by simp) hl) fun v => ?_
    refine Run.unplaced_bind_congr rfl fun h => ?_
    cases h.truthy v with
    | true => exact hchildren _ _ (by simp) hr
    | false => rfl
  all_goals simp only [eval, Run.unplaced_located]

theorem eval_compare_alike (htexts : Label.compare.textParts cs = Label.compare.textParts ds) :
    (eval call frame (.node .compare p cs)).unplaced =
      (eval call other (.node .compare q ds)).unplaced := by
  rcases hcs with _ | ⟨hl, _ | ⟨hop, _ | ⟨hr, _ | _⟩⟩⟩
  case cons.cons.cons.nil =>
    simp only [Label.textParts, List.cons.injEq, and_true] at htexts
    subst htexts
    simp only [eval, Run.unplaced_located]
    refine Run.unplaced_bind_congr rfl fun op => ?_
    refine Run.unplaced_bind_congr (hchildren _ _ (by simp) hl) fun a => ?_
    exact Run.unplaced_bind_congr (hchildren _ _ (by simp) hr) fun b => rfl
  all_goals simp only [eval, Run.unplaced_located]

theorem eval_binary_alike {label : Label} (hlabel : label = .add ∨ label = .mul ∨ label = .pow)
    (htexts : label.textParts cs = label.textParts ds) :
    (eval call frame (.node label p cs)).unplaced =
      (eval call other (.node label q ds)).unplaced := by
  rcases hcs with _ | ⟨hl, _ | ⟨hop, _ | ⟨hr, _ | _⟩⟩⟩
  case cons.cons.cons.nil =>
    rcases hlabel with rfl | rfl | rfl
    all_goals
      simp only [Label.textParts, List.cons.injEq, and_true] at htexts
      subst htexts
      simp only [eval, Run.unplaced_located]
      refine Run.unplaced_bind_congr rfl fun op => ?_
      refine Run.unplaced_bind_congr (hchildren _ _ (by simp) hl) fun a => ?_
      exact Run.unplaced_bind_congr (hchildren _ _ (by simp) hr) fun b => rfl
  all_goals rcases hlabel with rfl | rfl | rfl <;> simp only [eval, Run.unplaced_located]

theorem eval_unary_alike (htexts : Label.unary.textParts cs = Label.unary.textParts ds) :
    (eval call frame (.node .unary p cs)).unplaced =
      (eval call other (.node .unary q ds)).unplaced := by
  rcases hcs with _ | ⟨hop, _ | ⟨ht, _ | _⟩⟩
  case cons.cons.nil =>
    simp only [Label.textParts, List.cons.injEq, and_true] at htexts
    subst htexts
    simp only [eval, Run.unplaced_located]
    refine Run.unplaced_bind_congr rfl fun op => ?_
    exact Run.unplaced_bind_congr (hchildren _ _ (by simp) ht) fun v => rfl
  all_goals simp only [eval, Run.unplaced_located]

theorem eval_chain_alike
    (hsteps : ∀ v, (evalSteps call frame v cs.tail).unplaced =
      (evalSteps call other v ds.tail).unplaced) :
    (eval call frame (.node .chain p cs)).unplaced =
      (eval call other (.node .chain q ds)).unplaced := by
  rcases hcs with _ | ⟨hhead, _⟩
  case cons =>
    simp only [eval, Run.unplaced_located]
    exact Run.unplaced_bind_congr (hchildren _ _ (by simp) hhead) fun v => hsteps v
  all_goals simp only [eval, Run.unplaced_located]

end

/-- Two activations under one host in which related variables are bound alike. -/
structure Frame.Agree (related : String → String → Prop) (frame other : Frame) : Prop where
  get : ∀ x y, related x y → frame.get x = other.get y
  host : frame.host = other.host

section

variable {related : String → String → Prop} {call : Caller} {frame other : Frame}

mutual

theorem eval_alike (hf : Frame.Agree related frame other)
    {t u : Tree} (h : Alike related t u) :
    (eval call frame t).unplaced = (eval call other u).unplaced := by
  cases h with
  | ident h => simp only [eval_leaf, evalLeaf, hf.get _ _ h]
  | @leaf kind text h => cases kind <;> first | rfl | exact absurd rfl h
  | @node label p q cs ds hlabel htexts hcs =>
      have hchildren : ∀ t u, t ∈ cs → Alike related t u →
          (eval call frame t).unplaced = (eval call other u).unplaced := by
        intro t u ht htu
        have hlt := List.sizeOf_lt_of_mem ht
        exact eval_alike hf htu
      cases label with
      | ternary => exact eval_ternary_alike hcs hchildren
      | nullish => exact eval_nullish_alike hcs hchildren
      | or => exact eval_or_alike hcs hchildren
      | and => exact eval_and_alike hcs hchildren
      | compare => exact eval_compare_alike hcs hchildren htexts
      | add => exact eval_binary_alike hcs hchildren (by simp) htexts
      | mul => exact eval_binary_alike hcs hchildren (by simp) htexts
      | pow => exact eval_binary_alike hcs hchildren (by simp) htexts
      | unary => exact eval_unary_alike hcs hchildren htexts
      | chain =>
          refine eval_chain_alike hcs hchildren fun v => ?_
          cases hcs with
          | nil => rfl
          | cons _ hsteps => exact evalSteps_alike hf hsteps v
      | array =>
          simp only [eval, Run.unplaced_located]
          exact Run.unplaced_bind_congr (evalAll_alike hf hcs) fun vs => rfl
      | arrow => exact absurd rfl hlabel
      | _ => simp only [eval, Run.unplaced_located]
termination_by sizeOf t

theorem evalAll_alike (hf : Frame.Agree related frame other)
    {ts us : List Tree} (h : AllAlike related ts us) :
    (evalAll call frame ts).unplaced = (evalAll call other us).unplaced := by
  cases h with
  | nil => rfl
  | cons ht hts =>
      simp only [evalAll]
      refine Run.unplaced_bind_congr (eval_alike hf ht) fun v => ?_
      exact Run.unplaced_bind_congr (evalAll_alike hf hts) fun vs => rfl
termination_by sizeOf ts

theorem evalSteps_alike (hf : Frame.Agree related frame other)
    {ts us : List Tree} (h : AllAlike related ts us) (receiver : Value) :
    (evalSteps call frame receiver ts).unplaced = (evalSteps call other receiver us).unplaced := by
  cases h with
  | nil => rfl
  | cons ht hts =>
      simp only [evalSteps]
      refine Run.unplaced_bind_congr (evalStep_alike hf ht receiver) fun v => ?_
      exact evalSteps_alike hf hts v
termination_by sizeOf ts

theorem evalStep_alike (hf : Frame.Agree related frame other)
    {t u : Tree} (h : Alike related t u) (receiver : Value) :
    (evalStep call frame receiver t).unplaced = (evalStep call other receiver u).unplaced := by
  cases h with
  | ident => rfl
  | leaf => rfl
  | @node label p q cs ds _ htexts hcs =>
      simp only [evalStep]
      cases label with
      | field =>
          cases hcs with
          | nil => rfl
          | cons hname _ =>
              simp only [Label.textParts, List.cons.injEq, and_true] at htexts
              subst htexts
              simp only [evalStepParts, readField_congr call hf.host]
      | method =>
          rcases hcs with _ | ⟨hname, _ | ⟨hargs, _ | _⟩⟩
          case cons.cons.nil =>
            simp only [Label.textParts, List.cons.injEq, and_true] at htexts
            subst htexts
            simp only [evalStepParts, callMember_congr call hf.host]
            exact Run.unplaced_bind_congr (evalArgs_alike hf hargs) fun args => rfl
          all_goals rfl
      | index =>
          cases hcs with
          | nil => rfl
          | cons hi _ =>
              simp only [evalStepParts]
              exact Run.unplaced_bind_congr (eval_alike hf hi) fun v => rfl
      | call =>
          cases hcs with
          | nil => rfl
          | cons hargs _ =>
              simp only [evalStepParts]
              exact Run.unplaced_bind_congr (evalArgs_alike hf hargs) fun args => rfl
      | _ => simp only [evalStepParts]
termination_by sizeOf t

theorem evalArgs_alike (hf : Frame.Agree related frame other)
    {t u : Tree} (h : Alike related t u) :
    (evalArgs call frame t).unplaced = (evalArgs call other u).unplaced := by
  cases h with
  | ident => rfl
  | leaf => rfl
  | node _ _ hcs =>
      simp only [evalArgs]
      exact evalAll_alike hf hcs
termination_by sizeOf t

end

end

/-- Two names that stand at the same places of two parameter lists, or one name that stands in
neither. -/
def SameParameter (ps qs : List String) (x y : String) : Prop :=
  (∀ p ∈ ps.zip qs, p.1 = x ↔ p.2 = y) ∧ (x = y ∨ x ∈ ps)

theorem SameParameter.self (ps : List String) (x : String) : SameParameter ps ps x x := by
  refine ⟨fun p hp => ?_, .inl rfl⟩
  have heq : p.1 = p.2 := by
    rw [List.zip_eq_zipWith, List.zipWith_self, List.mem_map] at hp
    obtain ⟨q, -, rfl⟩ := hp
    rfl
  rw [heq]

theorem SameParameter.of_ne {ps qs : List String} {x : String} (h : ∀ p ∈ ps, p ≠ x)
    (h' : ∀ q ∈ qs, q ≠ x) : SameParameter ps qs x x := by
  refine ⟨fun p hp => ?_, .inl rfl⟩
  obtain ⟨hps, hqs⟩ := List.of_mem_zip hp
  exact iff_of_false (h _ hps) (h' _ hqs)

theorem lookup_map_congr {x y : String} {entries : List ((String × String) × Value)}
    (h : ∀ e ∈ entries, e.1.1 = x ↔ e.1.2 = y) :
    (entries.map fun e => (e.1.1, e.2)).lookup x =
      (entries.map fun e => (e.1.2, e.2)).lookup y := by
  induction entries with
  | nil => rfl
  | cons e entries ih =>
      rw [List.forall_mem_cons] at h
      simp only [List.map_cons, List.lookup_cons]
      by_cases hx : e.1.1 = x
      · rw [hx, h.1.mp hx, beq_self_eq_true, beq_self_eq_true]
      · have hy : e.1.2 ≠ y := fun heq => hx (h.1.mpr heq)
        rw [beq_false_of_ne (Ne.symm hx), beq_false_of_ne (Ne.symm hy)]
        exact ih h.2

theorem zip_zip_map {ps qs : List String} (h : ps.length = qs.length) (vs : List Value) :
    ((ps.zip qs).zip vs).map (fun e => (e.1.1, e.2)) = ps.zip vs ∧
      ((ps.zip qs).zip vs).map (fun e => (e.1.2, e.2)) = qs.zip vs := by
  induction ps generalizing qs vs with
  | nil =>
      rw [List.length_nil, eq_comm, List.length_eq_zero_iff] at h
      subst h
      exact ⟨rfl, rfl⟩
  | cons p ps ih =>
      cases qs with
      | nil => cases h
      | cons q qs =>
          cases vs with
          | nil => exact ⟨rfl, rfl⟩
          | cons v vs =>
              obtain ⟨hps, hqs⟩ := ih (Nat.succ.inj h) vs
              simp only [List.zip_cons_cons, List.map_cons, hps, hqs, and_self]

namespace Frame

variable {ps qs : List String} {x y : String}

theorem bind_eq_zip {vs : List Value} (hlen : ps.length = vs.length) :
    bind ps vs = (ps.zip vs).reverse := by
  have happend : (ps ++ []).zip (vs ++ List.replicate ps.length Value.null) = ps.zip vs ++ [] :=
    List.zip_append hlen
  rw [List.append_nil, List.append_nil] at happend
  rw [bind, happend]

theorem lookup_bind_congr (hlen : ps.length = qs.length)
    (h : ∀ p ∈ ps.zip qs, p.1 = x ↔ p.2 = y) (args : List Value) :
    (bind ps args).lookup x = (bind qs args).lookup y := by
  obtain ⟨hps, hqs⟩ := zip_zip_map hlen (args ++ List.replicate ps.length .null)
  rw [bind, bind, ← hlen, ← hps, ← hqs, ← List.map_reverse, ← List.map_reverse]
  apply lookup_map_congr
  intro e he
  exact h e.1 (List.of_mem_zip (List.mem_reverse.mp he)).1

theorem lookup_bind_ne_none (hx : x ∈ ps) (args : List Value) :
    (bind ps args).lookup x ≠ none := by
  have hfst : (ps.zip (args ++ List.replicate ps.length .null)).map Prod.fst = ps := by
    rw [List.map_fst_zip]
    simp
  rw [← hfst, List.mem_map] at hx
  obtain ⟨e, he, rfl⟩ := hx
  intro hnone
  have hne := List.lookup_eq_none_iff.mp hnone e (List.mem_reverse.mpr he)
  simp at hne

theorem agree_bind (hlen : ps.length = qs.length) (args : List Value) (context : Context) :
    Frame.Agree (SameParameter ps qs) ⟨bind ps args, context.scope, context.host⟩
      ⟨bind qs args, context.scope, context.host⟩ := by
  refine ⟨?_, rfl⟩
  rintro x y ⟨hplaces, hxy⟩
  have hlookup := lookup_bind_congr hlen hplaces args
  simp only [Frame.get]
  cases hx : (bind ps args).lookup x with
  | some v => rw [← hlookup, hx]
  | none =>
      rw [← hlookup, hx]
      rcases hxy with rfl | hmem
      · rfl
      · exact absurd hx (lookup_bind_ne_none hmem args)

end Frame

theorem call_alike {f g : Lambda} (hlen : f.params.length = g.params.length)
    (hbody : Alike (SameParameter f.params g.params) f.body g.body) (depth : Nat)
    (context : Context) (id other : Nat) (args : List Value) :
    (call depth context (.lambda id f) args).unplaced =
      (call depth context (.lambda other g) args).unplaced := by
  cases depth with
  | zero => rfl
  | succ depth =>
      simp only [call_lambda, Run.unplaced_withScope]
      rw [eval_alike (Frame.agree_bind hlen args context) hbody]

end StringLambda
