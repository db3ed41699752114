import StringLambda.Proofs.Caching
import StringLambda.Proofs.Forms.Expression
import StringLambda.Proofs.Parsing.Variables

namespace StringLambda

open StringLambda.Parser

/-! The form of a source and the parameters that its lambda takes are said by its tokens and by its
tree alike. -/

namespace Lambda

variable {bound : String → Bool} {source : String} {ts : List Token} {t : Tree} {f : Lambda}
  {p : Position}

theorem usesPlaceholder_iff {afterDot : Bool} :
    usesPlaceholder afterDot ts = true ↔ placeholderName ∈ variableNames afterDot ts := by
  induction ts generalizing afterDot with
  | nil => simp [usesPlaceholder, variableNames]
  | cons t ts ih =>
      rw [usesPlaceholder, variableNames, Bool.or_eq_true, ih]
      grind

theorem distinct_eq_eraseDups {seen xs : List String} :
    distinct seen xs = (xs.filter fun x => !seen.contains x).eraseDups := by
  induction xs generalizing seen with
  | nil => rfl
  | cons x xs ih =>
      rw [distinct]
      split
      next hx => rw [ih, List.filter_cons_of_neg (by simpa using hx)]
      next hx =>
        rw [ih, List.filter_cons_of_pos (by simpa using hx), List.eraseDups_cons,
          List.filter_filter]
        simp only [List.contains_cons, Bool.not_or]

theorem freeParams_eq (body : Tree) :
    freeParams bound body = (body.freeNames.filter fun x => !bound x).eraseDups := by
  rw [freeParams, distinct_eq_eraseDups]
  simp

def IsSectioned (ts : List Token) : Prop :=
  usesPlaceholder false ts = false ∧ (sectionParts? ts).isSome = true

/-- The lambda of an expression with the variables `xs`. -/
structure Infers (bound : String → Bool) (t : Tree) (xs : List String) (f : Lambda) : Prop where
  body : f.body = t
  placeholder : f.form = .placeholder ↔ placeholderName ∈ t.freeNames
  implicit : f.form = .implicit ↔ placeholderName ∉ t.freeNames
  params : f.form = .implicit → f.params = (xs.filter fun x => !bound x).eraseDups

theorem Compiles.form_eq_section_iff (harrow : ∀ u ∈ ts, u.kind ≠ .arrow)
    (hf : Compiles bound source ts f) : f.form = .section ↔ IsSectioned ts := by
  cases hf with
  | arrow hcut => exact absurd (cutAtArrows_of_none harrow ▸ rfl) hcut
  | placeholder _ hused _ => simp [IsSectioned, hused]
  | «section» _ hused hparts _ => simp [IsSectioned, hused, hparts]
  | implicit _ _ hparts _ => simp [IsSectioned, hparts]

theorem exists_compiles_of_not_isSectioned (harrow : ∀ u ∈ ts, u.kind ≠ .arrow)
    (ht : Tree.ofTokens ts = .ok t) (hsection : ¬ IsSectioned ts) :
    ∃ f, Compiles bound source ts f := by
  cases hused : usesPlaceholder false ts with
  | true => exact ⟨_, .placeholder harrow hused ht⟩
  | false =>
      cases hparts : sectionParts? ts with
      | none => exact ⟨_, .implicit harrow hused hparts ht⟩
      | some parts => exact absurd ⟨hused, by rw [hparts]; rfl⟩ hsection

theorem Compiles.infers (harrow : ∀ u ∈ ts, u.kind ≠ .arrow) (ht : Tree.ofTokens ts = .ok t)
    (hnames : t.freeNames = variableNames false ts) (hf : Compiles bound source ts f)
    (hform : f.form ≠ .section) : Infers bound t (variableNames false ts) f := by
  cases hf with
  | arrow hcut => exact absurd (cutAtArrows_of_none harrow ▸ rfl) hcut
  | placeholder _ hused hbody =>
      have hmem : placeholderName ∈ t.freeNames := hnames ▸ usesPlaceholder_iff.mp hused
      exact ⟨Except.ok.inj (hbody.symm.trans ht), by simp [hmem], by simp [hmem], nofun⟩
  | «section» => exact absurd rfl hform
  | implicit _ hused _ hbody =>
      have hmem : placeholderName ∉ t.freeNames := by
        rw [hnames, ← usesPlaceholder_iff, hused]
        nofun
      cases hbody.symm.trans ht
      refine ⟨rfl, by simp [hmem], by simp [hmem], fun _ => ?_⟩
      rw [freeParams_eq, hnames]

end Lambda

theorem freeNames_of_tokenize {source : String} {ts : List Token} {t : Tree}
    (hts : tokenize source = .ok ts) (ht : Tree.ofTokens ts = .ok t) :
    t.freeNames = variableNames false ts := by
  obtain ⟨us, rfl, hlexes⟩ := tokenize_eq_ok_iff.mp hts
  have heof : ∀ u ∈ us, u.kind ≠ .eof := fun u hu => (hlexes.lexeme_of_mem u hu).kind_ne_eof
  have d := (ofTokens_eq_ok_iff heof _ t).mp ht
  rw [variableNames_append_end rfl rfl, d.variableNames_eq (.inl rfl)]
  simp [Tree.freeNamesOf]

/-- The variables of a tree are those of its tokens. A source without arrows that reads as an
expression and is taken for no section compiles, after any history of steps since it has been
compiled anew; its form and its parameters are said by its variables. -/
theorem compile_infers :
    (∀ ts t, Tree.ofTokens ts = .ok t →
      ∃ read rest, ts = read ++ rest ∧ (current rest).kind = .eof ∧
        t.freeNames = variableNames false read ∧
        (rest.tail = [] → t.freeNames = variableNames false ts)) ∧
    ∀ (m : Machine) (history : List CacheStep) (source : String) (names : List Key)
      (ts : List Token) (t : Tree),
      tokenize source = .ok ts → (∀ u ∈ ts, u.kind ≠ .arrow) → Tree.ofSource source = .ok t →
      (∀ id f, m.cache.get? (.ofNames source names) = some (id, f) → m.isStale f = true) →
        let now := m.afterSteps history
        (¬ Lambda.IsSectioned ts → ∃ id f after, Run.compile source names now = .ok (id, f) after) ∧
        ∀ id f after, Run.compile source names now = .ok (id, f) after →
          (f.form = .section ↔ Lambda.IsSectioned ts) ∧
          (f.form ≠ .section →
            Lambda.Infers (now.binds (.ofList names)) t (variableNames false ts) f) := by
  constructor
  · intro ts t ht
    obtain ⟨read, rest, rfl, hrest, hnames⟩ := freeNames_of_ofTokens ht
    exact ⟨read, rest, rfl, hrest, hnames, fun htail => by
      rw [variableNames_append_end hrest htail, hnames]⟩
  · intro m history source names ts t hts harrow ht hmiss now
    have ht : Tree.ofTokens ts = .ok t := by
      simpa [Tree.ofSource, sourceTokens, hts, bind_eq_ok_iff, mapError_eq_ok_iff] using ht
    have hnow : now.Fresh (.ofNames source names) :=
      (Machine.Fresh.of_isStale hmiss).afterSteps history
    have hcompile (f : Lambda) : (∃ id after, Run.compile source names now = .ok (id, f) after) ↔
        Lambda.Compiles (now.binds (.ofList names)) source ts f := by
      rw [hnow.compile_iff]
      simp [Lambda.ofSource_eq_ok_iff, hts, Lambda.ofTokens_eq_ok_iff_compiles,
        current_kind_of_ofTokens ht]
    constructor
    · intro hsection
      obtain ⟨f, hf⟩ := Lambda.exists_compiles_of_not_isSectioned harrow ht hsection
      obtain ⟨id, after, h⟩ := (hcompile f).mpr hf
      exact ⟨id, f, after, h⟩
    · intro id f after h
      have hf := (hcompile f).mp ⟨id, after, h⟩
      exact ⟨hf.form_eq_section_iff harrow,
        hf.infers harrow ht (freeNames_of_tokenize hts ht)⟩

/-- `x.y + z + y + x` with the name `z` bound outside takes its two other variables. -/
theorem compile_infers_members :
    ∃ id f after, Run.compile "x.y + z + y + x" [.text "z"] .initial = .ok (id, f) after ∧
      f.form = .implicit ∧ f.params = ["x", "y"] := by
  let ts : List Token := [⟨.ident, "x", ⟨1, 1⟩⟩, ⟨.dot, ".", ⟨1, 2⟩⟩, ⟨.ident, "y", ⟨1, 3⟩⟩,
    ⟨.plus, "+", ⟨1, 5⟩⟩, ⟨.ident, "z", ⟨1, 7⟩⟩, ⟨.plus, "+", ⟨1, 9⟩⟩, ⟨.ident, "y", ⟨1, 11⟩⟩,
    ⟨.plus, "+", ⟨1, 13⟩⟩, ⟨.ident, "x", ⟨1, 15⟩⟩, .stop ⟨1, 16⟩]
  have hts : tokenize "x.y + z + y + x" = .ok ts := rfl
  obtain ⟨t, ht⟩ : ∃ t, Tree.ofSource "x.y + z + y + x" = .ok t := by
    rw [Tree.ofSource, sourceTokens, hts]
    exact ⟨_, rfl⟩
  have hmiss : ∀ id f, Machine.initial.cache.get? (.ofNames "x.y + z + y + x" [.text "z"]) =
      some (id, f) → Machine.initial.isStale f = true := by
    intro id f hentry
    cases hentry
  have hsection : ¬ Lambda.IsSectioned ts := by
    rintro ⟨-, hparts⟩
    cases hparts
  obtain ⟨hcompiles, hinfers⟩ := compile_infers.2 .initial [] "x.y + z + y + x" [.text "z"] ts t hts
    (by decide) ht hmiss
  obtain ⟨id, f, after, h⟩ := hcompiles hsection
  obtain ⟨hform, hinfers⟩ := hinfers id f after h
  have hf := hinfers (mt hform.mp hsection)
  have hnames : t.freeNames = ["x", "z", "y", "x"] := freeNames_of_tokenize hts (by
    simpa [Tree.ofSource, sourceTokens, hts, bind_eq_ok_iff, mapError_eq_ok_iff] using ht)
  have himplicit : f.form = .implicit := hf.implicit.mpr (by rw [hnames]; decide)
  exact ⟨id, f, after, h, himplicit, (hf.params himplicit).trans (by decide +kernel)⟩

theorem Machine.isSome_global?_of_dropGlobal {m : Machine} {name x : String}
    (h : ((m.dropGlobal name).global? x).isSome = true) : (m.global? x).isSome = true := by
  simp only [global?, dropGlobal, List.lookup_isSome_iff, List.mem_filter] at h ⊢
  obtain ⟨entry, hentry, hx⟩ := h
  exact ⟨entry, hentry.1, hx⟩

theorem Machine.global?_dropGlobal (m : Machine) (name : String) :
    (m.dropGlobal name).global? name = none := by
  rw [global?, dropGlobal, List.lookup_eq_none_iff]
  intro entry hentry
  have hne : entry.1 ≠ name := by simpa using (List.mem_filter.mp hentry).2
  simpa using hne.symm

theorem Run.get?_of_compile {m after : Machine} {source : String} {names : List Key} {id : Nat}
    {f : Lambda} (h : compile source names m = .ok (id, f) after) :
    after.cache.get? (.ofNames source names) = some (id, f) ∧ after.isStale f = false := by
  rcases compile_cases source names m with ⟨_, _, hentry, hstale, hm⟩ |
    ⟨-, ⟨_, hf, hm⟩ | ⟨_, -, hm⟩⟩
  · cases hm.symm.trans h
    exact ⟨hentry, hstale⟩
  · cases hm.symm.trans h
    refine ⟨by simp [Machine.remember, Cache.get?_put], ?_⟩
    rw [← Bool.not_eq_true, Machine.isStale_eq_true_iff]
    rintro ⟨hform, p, hp, hglobal⟩
    have hbound := Lambda.bound_of_mem_params hf hform hp
    rw [Machine.binds, show (m.global? p).isSome = true from hglobal, Bool.or_true] at hbound
    cases hbound
  · cases hm.symm.trans h

theorem Run.compile_dropGlobal {m after : Machine} {source : String} {names : List Key} {id : Nat}
    {f : Lambda} (h : compile source names m = .ok (id, f) after) (name : String) :
    ∃ last, compile source names (after.dropGlobal name) = .ok (id, f) last := by
  obtain ⟨hentry, hstale⟩ := get?_of_compile h
  have hstale' : (after.dropGlobal name).isStale f = false := by
    rw [← Bool.not_eq_true, Machine.isStale_eq_true_iff]
    rintro ⟨hform, p, hp, hglobal⟩
    rw [Machine.isStale_eq_true_iff.mpr
      ⟨hform, p, hp, Machine.isSome_global?_of_dropGlobal hglobal⟩] at hstale
    cases hstale
  have hentry' : (after.dropGlobal name).cache.get? (.ofNames source names) = some (id, f) := hentry
  rw [compile_of_some _ _ _ hentry', hstale']
  exact ⟨_, rfl⟩

namespace Machine

/-- The state in which the source `g + x` has been compiled while `g` was a global. -/
def withoutGlobal : Machine :=
  ((Run.compile "g + x" []).stateAfter (initial.setGlobal "g" (.ofInt 1))).dropGlobal "g"

end Machine

/-- The source `g + x` with the name `g` bound outside. -/
def Lambda.globalSum : Lambda :=
  ⟨"g + x", ["x"], .node .add (some ⟨1, 1⟩) [.leaf .ident "g", .leaf .op "+", .leaf .ident "x"],
    .implicit⟩

theorem tokenize_globalSum : tokenize "g + x" = .ok [⟨.ident, "g", ⟨1, 1⟩⟩, ⟨.plus, "+", ⟨1, 3⟩⟩,
    ⟨.ident, "x", ⟨1, 5⟩⟩, .stop ⟨1, 6⟩] := rfl

theorem Run.exists_compile_withoutGlobal :
    ∃ id last, compile "g + x" [] .withoutGlobal = .ok (id, .globalSum) last := by
  let bound := (Machine.initial.setGlobal "g" (.ofInt 1)).binds (.ofList [])
  have hparams : Lambda.freeParams bound Lambda.globalSum.body = ["x"] := by decide +kernel
  have hsource : Lambda.ofSource bound "g + x" =
      .ok { Lambda.globalSum with params := Lambda.freeParams bound Lambda.globalSum.body } :=
    Lambda.ofSource_eq_ok_iff.mpr ⟨_, tokenize_globalSum, rfl⟩
  rw [hparams] at hsource
  have h := compile_of_ofSource "g + x" [] (Machine.initial.setGlobal "g" (.ofInt 1)) rfl hsource
  rw [Machine.withoutGlobal, stateAfter, h]
  exact ⟨_, compile_dropGlobal h "g"⟩

/-- Tokens behind an end token are not read, and a lambda is remembered with the parameters that it
had when a name was still global. -/
theorem exists_compile_not_infers :
    (∃ t, Tree.ofTokens [⟨.ident, "a", ⟨1, 1⟩⟩, .stop ⟨1, 2⟩, ⟨.ident, "b", ⟨1, 3⟩⟩] = .ok t ∧
      t.freeNames ≠
        variableNames false [⟨.ident, "a", ⟨1, 1⟩⟩, .stop ⟨1, 2⟩, ⟨.ident, "b", ⟨1, 3⟩⟩]) ∧
    ∃ ts t id f after, tokenize "g + x" = .ok ts ∧ Tree.ofSource "g + x" = .ok t ∧
      Run.compile "g + x" [] .withoutGlobal = .ok (id, f) after ∧ f.form = .implicit ∧
      f.params ≠ ((variableNames false ts).filter fun x =>
        !Machine.withoutGlobal.binds (.ofList []) x).eraseDups := by
  refine ⟨⟨_, rfl, by decide⟩, ?_⟩
  have ht : Tree.ofSource "g + x" = .ok Lambda.globalSum.body := by
    rw [Tree.ofSource, sourceTokens, tokenize_globalSum]
    rfl
  obtain ⟨id, last, h⟩ := Run.exists_compile_withoutGlobal
  refine ⟨_, _, id, _, last, tokenize_globalSum, ht, h, rfl, fun heq => ?_⟩
  have hg : Machine.withoutGlobal.binds (.ofList []) "g" = false := by
    rw [Machine.binds, Machine.withoutGlobal, Machine.global?_dropGlobal]
    rfl
  have hmem : "g" ∈ ["x"] := by
    rw [show ["x"] = Lambda.globalSum.params from rfl, heq]
    exact List.mem_eraseDups.mpr (List.mem_filter.mpr ⟨by decide, by rw [hg]; rfl⟩)
  exact absurd hmem (by decide)

end StringLambda
