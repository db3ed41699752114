import StringLambda.Proofs.Forms.Inference
import StringLambda.Proofs.Forms.Lockstep
import StringLambda.Proofs.Lexing.Spacing

namespace StringLambda

open StringLambda.Parser

/-! The spaces and the line ends of a source do not show in the lambda that it compiles to. -/

def anywhere (_ _ : Position) : Prop :=
  True

namespace Lambda

variable {source other : String} {ts us : List Token} {p q : Position}

theorem SameTokens.of_words (hwords : ts.map Token.word = us.map Token.word)
    (heof : ∀ t ∈ ts, t.kind ≠ .eof) : SameTokens anywhere ts us := by
  rw [← List.forall₂_eq_eq_eq, List.forall₂_map_left_iff, List.forall₂_map_right_iff] at hwords
  refine ⟨hwords.imp fun t u h => ?_, heof⟩
  rw [Token.word, Token.word, Prod.mk.injEq] at h
  exact ⟨h.1, h.2, trivial⟩

/-- Two sources compile to the same lambda apart from places, or to errors over the same issue. -/
inductive SourcesAgree (bound bound' : String → Bool) (source other : String) : Prop
  | ok {f g : Lambda} : ofSource bound source = .ok f → ofSource bound' other = .ok g →
      Same (fun _ => none) bound bound' f g → SourcesAgree bound bound' source other
  | error {issue : ParseIssue} {p q : Position} :
      ofSource bound source = .error (.parse ⟨issue, p⟩) →
      ofSource bound' other = .error (.parse ⟨issue, q⟩) → SourcesAgree bound bound' source other

theorem SourcesAgree.same {bound bound' : String → Bool} {f g : Lambda}
    (h : SourcesAgree bound bound' source other) (hf : ofSource bound source = .ok f)
    (hg : ofSource bound' other = .ok g) : Same (fun _ => none) bound bound' f g := by
  cases h with
  | ok hf' hg' hsame =>
      cases hf.symm.trans hf'
      cases hg.symm.trans hg'
      exact hsame
  | error hf' => cases hf.symm.trans hf'

theorem sourcesAgree_of_words (hts : tokenize source = .ok (ts ++ [.stop p]))
    (hus : tokenize other = .ok (us ++ [.stop q])) (hwords : us.map Token.word = ts.map Token.word)
    (bound bound' : String → Bool) : SourcesAgree bound bound' source other := by
  obtain ⟨vs, heq, hlexes⟩ := tokenize_eq_ok_iff.mp hts
  obtain ⟨rfl, -⟩ := List.append_inj' heq rfl
  have hsame : SameTokens anywhere ts us :=
    .of_words hwords.symm fun t ht => (hlexes.lexeme_of_mem t ht).kind_ne_eof
  have hend : SameEnd anywhere (Token.stop p) (Token.stop q) :=
    ⟨⟨rfl, rfl, trivial⟩, Token.isEnd_stop p⟩
  have hsource : ofSource bound source = _ := ofSource_of_tokenize hts
  have hother : ofSource bound' other = _ := ofSource_of_tokenize hus
  have hagree : Agree anywhere (Same (fun _ => none) bound bound') _ _ :=
    (hsame.ofTokens hend (fun _ _ _ => rfl) bound bound' source other).mono fun _ _ h => h.2.2
  generalize ofTokens bound source (ts ++ [.stop p]) = x at hagree hsource
  generalize ofTokens bound' other (us ++ [.stop q]) = y at hagree hother
  cases hagree with
  | ok h => exact .ok hsource hother h
  | error => exact .error hsource hother

end Lambda

inductive CacheEvent where
  | step (r : CacheStep)
  | dropGlobal (name : String)

namespace Machine

variable {m : Machine} {key : LambdaKey}

def afterEvent (m : Machine) : CacheEvent → Machine
  | .step r => m.afterStep r
  | .dropGlobal name => m.dropGlobal name

def afterEvents (m : Machine) (history : List CacheEvent) : Machine :=
  history.foldl afterEvent m

/-- A remembered lambda is one of its source, whatever names were bound when it was made. -/
def Made (m : Machine) : Prop :=
  ∀ key id f, m.cache.get? key = some (id, f) → ∃ bound, Lambda.ofSource bound key.source = .ok f

namespace Made

theorem uncached (m : Machine) : m.uncached.Made :=
  fun _ _ _ h => nomatch h

theorem afterStep (h : m.Made) (r : CacheStep) : (m.afterStep r).Made := by
  cases r with
  | compile source names =>
      rcases m.afterStep_compile source names with ⟨events, hm⟩ | ⟨s, g, -, -, hg, hm⟩
      · rw [hm]
        exact h
      · rw [hm]
        intro key id f hentry
        simp only [remember, Cache.get?_put] at hentry
        split at hentry
        next heq =>
          cases hentry
          subst heq
          exact ⟨_, hg⟩
        next => exact h key id f hentry
  | clear => exact uncached m
  | setGlobal name value => exact h

theorem afterSteps (h : m.Made) (history : List CacheStep) : (m.afterSteps history).Made := by
  induction history generalizing m with
  | nil => exact h
  | cons r history ih => exact ih (h.afterStep r)

theorem afterEvents (h : m.Made) (history : List CacheEvent) : (m.afterEvents history).Made := by
  induction history generalizing m with
  | nil => exact h
  | cons e history ih =>
      cases e with
      | step r => exact ih (h.afterStep r)
      | dropGlobal name => exact ih (m := m.dropGlobal name) h

/-- A call answers a lambda of the source, made anew or not, or fails as the source does now. -/
theorem compile_cases (h : m.Made) (source : String) (names : List Key) :
    (∃ bound id f after, Lambda.ofSource bound source = .ok f ∧
      Run.compile source names m = .ok (id, f) after) ∨
    ∃ e, Lambda.ofSource (m.binds (.ofList names)) source = .error e ∧
      Run.compile source names m = .error (.fault (.source e)) m := by
  rcases Run.compile_cases source names m with ⟨id, f, hentry, -, hm⟩ |
    ⟨-, ⟨f, hf, hm⟩ | ⟨e, he, hm⟩⟩
  · obtain ⟨bound, hf⟩ := h _ id f hentry
    exact .inl ⟨bound, id, f, _, hf, hm⟩
  · exact .inl ⟨_, _, f, _, hf, hm⟩
  · exact .inr ⟨e, he, hm⟩

end Made

end Machine

/-- A source that is spaced out has the same tokens apart from places. In a state that a history
with dropped globals has left, both sources compile to a lambda of the same form with the same body
apart from places, or both are refused over the same issue. Only the parameters of an expression
can differ, and those are the same when both lambdas have been made since the last global was
dropped. -/
theorem compile_spaced {source other : String} {ts : List Token} {p : Position}
    (hts : tokenize source = .ok (ts ++ [.stop p])) (hother : Spaced ts other.toList) :
    (∃ us, tokenize other = .ok us ∧ us.map Token.word = (ts ++ [Token.stop p]).map Token.word) ∧
    ∀ (m : Machine) (earlier : List CacheEvent) (later : List CacheStep) (names : List Key),
      let before := m.uncached.afterEvents earlier
      let now := before.afterSteps later
      (∃ id f id' g after after', Run.compile source names now = .ok (id, f) after ∧
        Run.compile other names now = .ok (id', g) after' ∧
        f.form = g.form ∧ f.body.unplaced = g.body.unplaced ∧
        (f.form ≠ .implicit → f.params = g.params) ∧
        ((∀ s ∈ [source, other], ∀ id f, before.cache.get? (.ofNames s names) = some (id, f) →
          before.isStale f = true) → f.params = g.params)) ∨
      ∃ issue place place',
        Run.compile source names now = .error (.fault (.source (.parse ⟨issue, place⟩))) now ∧
        Run.compile other names now = .error (.fault (.source (.parse ⟨issue, place'⟩))) now := by
  obtain ⟨us, q, hus, hwords⟩ := exists_tokenize_of_spaced hts hother
  refine ⟨⟨_, hus, by simp [hwords, Token.word, Token.stop]⟩, ?_⟩
  intro m earlier later names before now
  have hagree (bound bound' : String → Bool) :=
    Lambda.sourcesAgree_of_words hts hus hwords bound bound'
  have hmade : now.Made := ((Machine.Made.uncached m).afterEvents earlier).afterSteps later
  rcases hmade.compile_cases source names with ⟨bound, id, f, after, hf, hm⟩ | ⟨e, he, hm⟩
  · rcases hmade.compile_cases other names with ⟨bound', id', g, after', hg, hm'⟩ | ⟨e, he, -⟩
    · refine .inl ⟨id, f, id', g, after, after', hm, hm', ?_⟩
      have hsame := (hagree bound bound').same hf hg
      refine ⟨hsame.form, hsame.body, hsame.params, fun hmiss => ?_⟩
      -- Lambdas made since the last drop are made under the names that are bound now.
      have hfresh (s : String) (hs : s ∈ [source, other]) : now.Fresh (.ofNames s names) :=
        (Machine.Fresh.of_isStale (hmiss s hs)).afterSteps later
      have hf' := (hfresh source (by simp)).compile_iff.mp ⟨id, after, hm⟩
      have hg' := (hfresh other (by simp)).compile_iff.mp ⟨id', after', hm'⟩
      exact ((hagree _ _).same hf' hg').params_eq
    · cases hagree bound (now.binds (.ofList names)) with
      | ok _ hg => cases he.symm.trans hg
      | error hf' _ => cases hf.symm.trans hf'
  · refine .inr ?_
    cases hagree (now.binds (.ofList names)) (now.binds (.ofList names)) with
    | ok hf => cases he.symm.trans hf
    | error he' hother' =>
        cases he.symm.trans he'
        rcases hmade.compile_cases other names with ⟨bound', id', g, after', hg, -⟩ | ⟨e, he', hm'⟩
        · cases hagree (now.binds (.ofList names)) bound' with
          | ok hf => cases he.symm.trans hf
          | error _ hother => cases hg.symm.trans hother
        · cases hother'.symm.trans he'
          exact ⟨_, _, _, hm, hm'⟩

/-- `x.y+1.5` with a separator between any two tokens and around them. -/
theorem compile_spaced_sum :
    (∃ us, tokenize " x . y\n+\t1.5 " = .ok us ∧ us.map Token.word =
      [(.ident, "x"), (.dot, "."), (.ident, "y"), (.plus, "+"), (.number, "1.5"), (.eof, "")]) ∧
    ∃ id f id' g after after', Run.compile "x.y+1.5" [] .initial = .ok (id, f) after ∧
      Run.compile " x . y\n+\t1.5 " [] .initial = .ok (id', g) after' ∧
      f.form = g.form ∧ f.body.unplaced = g.body.unplaced ∧ f.params = g.params := by
  let ts : List Token := [⟨.ident, "x", ⟨1, 1⟩⟩, ⟨.dot, ".", ⟨1, 2⟩⟩, ⟨.ident, "y", ⟨1, 3⟩⟩,
    ⟨.plus, "+", ⟨1, 4⟩⟩, ⟨.number, "1.5", ⟨1, 5⟩⟩]
  have hts : tokenize "x.y+1.5" = .ok (ts ++ [.stop ⟨1, 8⟩]) := rfl
  have hspread : Spread ts ("x".toList ++ ([' '] ++ (".".toList ++ ([' '] ++ ("y".toList ++
      (['\n'] ++ ("+".toList ++ (['\t'] ++ ("1.5".toList ++ ([' '] ++ [])))))))))) :=
    .cons (by decide) (by simp) (.cons (by decide) (by simp) (.cons (by decide) (by simp)
      (.cons (by decide) (by simp) (.cons (by decide) (by simp) .nil))))
  have hspaced : Spaced ts " x . y\n+\t1.5 ".toList := ⟨[' '], _, by decide, hspread, rfl⟩
  obtain ⟨hwords, hcompile⟩ := compile_spaced hts hspaced
  refine ⟨hwords, ?_⟩
  have hsource : Lambda.ofSource (Machine.initial.binds (.ofList [])) "x.y+1.5" = .ok _ :=
    Lambda.ofSource_eq_ok_iff.mpr ⟨_, hts, rfl⟩
  have hok := Run.compile_of_ofSource "x.y+1.5" [] .initial rfl hsource
  rcases hcompile .initial [] [] [] with ⟨id, f, id', g, after, after', hf, hg, hform, hbody, -,
    hparams⟩ | ⟨_, _, _, herror, -⟩
  · exact ⟨id, f, id', g, after, after', hf, hg, hform, hbody, hparams nofun⟩
  · cases hok.symm.trans herror

theorem Run.get?_withoutGlobal {source : String} (h : source ≠ "g + x") (names : List Key) :
    Machine.withoutGlobal.cache.get? (.ofNames source names) = none := by
  have hne : LambdaKey.ofNames source names ≠ .ofNames "g + x" [] :=
    fun heq => h (congrArg LambdaKey.source heq)
  rw [Machine.withoutGlobal, stateAfter]
  rcases compile_cases "g + x" [] (Machine.initial.setGlobal "g" (.ofInt 1)) with
    ⟨id, f, -, -, hm⟩ | ⟨-, ⟨f, -, hm⟩ | ⟨e, -, hm⟩⟩
  · rw [hm]
    rfl
  · rw [hm]
    simp only [Machine.dropGlobal, Machine.remember, Cache.get?_put, if_neg hne]
    rfl
  · rw [hm]
    rfl

/-- A source with one space more is compiled anew where the other one is remembered with the
parameters that it had when a name was still global. -/
theorem exists_compile_spaced_ne :
    ∃ ts p id f id' g after after', tokenize "g + x" = .ok (ts ++ [.stop p]) ∧
      Spaced ts "g  +  x".toList ∧ Run.compile "g + x" [] .withoutGlobal = .ok (id, f) after ∧
      Run.compile "g  +  x" [] .withoutGlobal = .ok (id', g) after' ∧ f.params ≠ g.params := by
  obtain ⟨id, after, h⟩ := Run.exists_compile_withoutGlobal
  let ts : List Token := [⟨.ident, "g", ⟨1, 1⟩⟩, ⟨.plus, "+", ⟨1, 3⟩⟩, ⟨.ident, "x", ⟨1, 5⟩⟩]
  have hspread : Spread ts ("g".toList ++ ([' ', ' '] ++ ("+".toList ++ ([' ', ' '] ++
      ("x".toList ++ ([] ++ [])))))) :=
    .cons (by decide) (by simp) (.cons (by decide) (by simp) (.cons (by decide) (by simp) .nil))
  have hother : tokenize "g  +  x" = .ok [⟨.ident, "g", ⟨1, 1⟩⟩, ⟨.plus, "+", ⟨1, 4⟩⟩,
    ⟨.ident, "x", ⟨1, 7⟩⟩, .stop ⟨1, 8⟩] := rfl
  have hsource (bound : String → Bool) : Lambda.ofSource bound "g  +  x" =
      .ok ⟨"g  +  x", Lambda.freeParams bound Lambda.globalSum.body, Lambda.globalSum.body,
        .implicit⟩ :=
    Lambda.ofSource_eq_ok_iff.mpr ⟨_, hother, rfl⟩
  have hok := Run.compile_of_ofSource "g  +  x" [] .withoutGlobal
    (Run.get?_withoutGlobal (by decide) []) (hsource _)
  have hspaced : Spaced ts "g  +  x".toList := ⟨[], _, by decide, hspread, rfl⟩
  have hg : Machine.withoutGlobal.binds (.ofList []) "g" = false := by
    rw [Machine.binds, Machine.withoutGlobal, Machine.global?_dropGlobal]
    rfl
  refine ⟨ts, ⟨1, 6⟩, id, .globalSum, _, _, after, _, tokenize_globalSum, hspaced, h, hok, ?_⟩
  dsimp only
  intro heq
  have hnames : "g" ∈ Lambda.globalSum.body.freeNames := by decide
  have hmem : "g" ∈ Lambda.globalSum.params := heq ▸ Lambda.mem_freeParams.mpr ⟨hnames, hg⟩
  exact absurd hmem (by decide)

end StringLambda
