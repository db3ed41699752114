import StringLambda.Proofs.Evaluation.Alike
import StringLambda.Proofs.Forms.Arrow
import StringLambda.Proofs.Parsing.Renaming

namespace StringLambda

open StringLambda.Parser

/-! Every form of a source is an arrow with its parameters left out. -/

namespace Lambda

def lacksLeft (ts : List Token) : Bool :=
  ts.head?.any (·.kind.opensSection)

def lacksRight (ts : List Token) : Bool :=
  ts.getLast?.any (·.kind.closesSection)

/-- The arrow that says what a lambda of another form says; `x` and `y` name the operands that a
section lacks. -/
def asArrow (f : Lambda) (ts : List Token) (x y : String) : String :=
  match f.form with
  | .arrow => f.source
  | .placeholder => arrowText ["_"] f.source
  | .implicit => arrowText f.params f.source
  | .section =>
    match lacksLeft ts, lacksRight ts with
    | true, false => arrowText [x] (x ++ " " ++ f.source)
    | false, _ => arrowText [x] (f.source ++ " " ++ x)
    | true, true => arrowText [x, y] (x ++ " " ++ f.source ++ " " ++ y)

/-- Two names that a source does not use. -/
structure FreshOperands (ts : List Token) (x y : String) : Prop where
  left : Lexeme .ident x.toList
  right : Lexeme .ident y.toList
  ne : x ≠ y
  fresh : ∀ t ∈ ts, t.kind = .ident → t.text ≠ x ∧ t.text ≠ y

variable {bound : String → Bool} {source : String} {ts tokens : List Token} {stop : Token}
  {f : Lambda} {params : List String}

/-- The tokens of a section, with the operands that it lacks put in. -/
theorem sectionParts?_cases (h : sectionParts? (ts ++ [stop]) = some (params, tokens)) :
    ∃ first last, ts.head? = some first ∧ ts.getLast? = some last ∧
      ((first.kind.opensSection = true ∧ last.kind.closesSection = false ∧
        params = [leftName] ∧ tokens = operand leftName first :: ts ++ [stop]) ∨
      (first.kind.opensSection = false ∧ last.kind.closesSection = true ∧
        params = [leftName] ∧ tokens = ts ++ [operand leftName last] ++ [stop]) ∨
      (first.kind.opensSection = true ∧ last.kind.closesSection = true ∧
        params = [leftName, rightName] ∧
        tokens = operand leftName first :: (ts ++ [operand rightName last]) ++ [stop])) := by
  have hbody : (ts ++ [stop]).dropLast = ts := List.dropLast_concat
  have hstop : (ts ++ [stop]).drop ((ts ++ [stop]).length - 1) = [stop] := by
    simp
  simp only [sectionParts?, hbody, hstop] at h
  split at h
  next first last hfirst hlast =>
    refine ⟨first, last, hfirst, hlast, ?_⟩
    split at h
    next => cases h
    next hl hr =>
      cases h
      exact .inl ⟨hl, hr, rfl, rfl⟩
    next hl hr =>
      cases h
      exact .inr (.inl ⟨hl, hr, rfl, by simp⟩)
    next hl hr =>
      cases h
      exact .inr (.inr ⟨hl, hr, rfl, by simp⟩)
  next => cases h

end Lambda

theorem Lexeme.ne_operand {s : String} (h : Lexeme .ident s.toList) :
    s ≠ Lambda.leftName ∧ s ≠ Lambda.rightName := by
  obtain ⟨c, v, hs, hc, -, -⟩ := h.exists_word
  constructor
  all_goals
    rintro rfl
    obtain ⟨rfl, -⟩ := List.cons.inj hs
    cases hc

theorem Renamed.operand {related : String → String → Prop} {name x : String} {op t : Token}
    (ht : t.word = (.ident, x)) (h : related name x) :
    Renamed related false [Lambda.operand name op] [t] := by
  simp only [Token.word, Prod.mk.injEq] at ht
  refine .cons ⟨ht.1.symm, fun _ _ => ?_, ?_⟩ .nil
  · rw [ht.2]
    exact h
  · simp [Lambda.operand]

namespace Lambda

variable {f : Lambda} {ts us : List Token} {p : Position} {x y : String}

def IsArrow (f : Lambda) (source : String) : Prop :=
  ∀ bound, ∃ g, Lambda.ofSource bound source = .ok g ∧ g.form = .arrow ∧ g.arity = f.arity ∧
    ∀ depth context id other args,
      (call depth context (.lambda id f) args).unplaced =
        (call depth context (.lambda other g) args).unplaced

theorem isArrow_of_renamed {params : List String} {body : String}
    {words : List (Kind × String)} (hlen : f.params.length = params.length)
    (hparams : ∀ q ∈ params, Lexeme .ident q.toList) (hnodup : params.Nodup)
    (hbody : HasWords body.toList [] words) (hwords : PlainWords words)
    (d : Derives true .expr us [f.body])
    (hrenamed : ∀ bs : List Token, bs.map Token.word = words →
      Renamed (SameParameter f.params params) false us bs) :
    f.IsArrow (arrowText params body) := by
  intro bound
  obtain ⟨bs, p, hbs, harrow⟩ := exists_ofSource_arrowText hparams hnodup hbody hwords
  obtain ⟨t, d', halike⟩ := exists_tree (d.renamed (hrenamed bs hbs) (.inl rfl))
  have heof : ∀ t ∈ bs, t.kind ≠ .eof := fun t ht => (hwords _ (hbs ▸ List.mem_map_of_mem ht)).2
  refine ⟨_, harrow t ((ofTokens_eq_ok_iff heof p t).mpr d') bound, rfl, hlen.symm, ?_⟩
  exact fun depth context id other args => call_alike hlen halike depth context id other args

/-- The tokens of a source without arrows. -/
structure PlainTokens (source : String) (ts : List Token) : Prop where
  lexes : Lexes [] source.toList ts []
  arrow : ∀ t ∈ ts, t.kind ≠ .arrow
  eof : ∀ t ∈ ts, t.kind ≠ .eof

theorem PlainTokens.of_tokenize {source : String} (h : tokenize source = .ok (ts ++ [.stop p]))
    (harrow : ∀ t ∈ ts, t.kind ≠ .arrow) : PlainTokens source ts := by
  obtain ⟨us, heq, hus⟩ := tokenize_eq_ok_iff.mp h
  obtain ⟨rfl, -⟩ := List.append_inj' heq rfl
  exact ⟨hus, harrow, fun t ht => (hus.lexeme_of_mem t ht).kind_ne_eof⟩

theorem PlainTokens.words {source : String} (h : PlainTokens source ts) :
    PlainWords (ts.map Token.word) := by
  intro w hw
  obtain ⟨t, ht, rfl⟩ := List.mem_map.mp hw
  exact ⟨h.arrow t ht, h.eof t ht⟩

theorem PlainTokens.arrow_stop {source : String} (h : PlainTokens source ts) (p : Position) :
    ∀ t ∈ ts ++ [.stop p], t.kind ≠ .arrow :=
  List.forall_mem_append.mpr ⟨h.arrow, by simp [Token.stop]⟩

section

variable (hts : PlainTokens f.source ts)
include hts

theorem isArrow_of_params (hparams : ∀ q ∈ f.params, Lexeme .ident q.toList)
    (hnodup : f.params.Nodup) (d : Derives true .expr ts [f.body]) :
    f.IsArrow (arrowText f.params f.source) := by
  refine isArrow_of_renamed rfl hparams hnodup (HasWords.of_lexes hts.lexes (.inl rfl)) hts.words
    d fun bs hbs => ?_
  exact Renamed.of_words hbs.symm (fun t _ _ => SameParameter.self _ _) false

variable (hxy : FreshOperands ts x y)
include hxy

theorem sameParameter_of_mem {t : Token} (ht : t ∈ ts) (hkind : t.kind = .ident)
    {ps qs : List String} (hps : ∀ q ∈ ps, q = leftName ∨ q = rightName)
    (hqs : ∀ q ∈ qs, q = x ∨ q = y) : SameParameter ps qs t.text t.text := by
  have hlexeme := hts.lexes.lexeme_of_mem t ht
  rw [hkind] at hlexeme
  have hne := hlexeme.ne_operand
  have hfresh := hxy.fresh t ht hkind
  refine SameParameter.of_ne (fun q hq => ?_) (fun q hq => ?_)
  · rcases hps q hq with rfl | rfl
    · exact hne.1.symm
    · exact hne.2.symm
  · rcases hqs q hq with rfl | rfl
    · exact hfresh.1.symm
    · exact hfresh.2.symm

omit hts hxy in
theorem hasWords_before {more : List Char} (hx : Lexeme .ident x.toList) :
    HasWords (x.toList ++ [' ']) more [(.ident, x)] := by
  have hspace : isSeparator ' ' = true := rfl
  have hname : HasWords x.toList (' ' :: more) [(.ident, String.ofList x.toList)] :=
    HasWords.of_lexeme hx hspace
  rw [String.ofList_toList] at hname
  exact hname.append (HasWords.separator hspace)

omit hts hxy in
theorem hasWords_behind (hx : Lexeme .ident x.toList) :
    HasWords (' ' :: x.toList) [] [(.ident, x)] := by
  have hname : HasWords x.toList [] [(.ident, String.ofList x.toList)] :=
    HasWords.lexeme hx.reads
  rw [String.ofList_toList] at hname
  exact HasWords.append (HasWords.separator (show isSeparator ' ' = true from rfl)) hname

theorem isArrow_left {first : Token} (hparams : f.params = [leftName])
    (d : Derives true .expr (operand leftName first :: ts) [f.body]) :
    f.IsArrow (arrowText [x] (x ++ " " ++ f.source)) := by
  have hbody : HasWords (x ++ " " ++ f.source).toList []
      ((.ident, x) :: ts.map Token.word) := by
    rw [String.toList_append, String.toList_append]
    exact (hasWords_before hxy.left).append (HasWords.of_lexes hts.lexes (.inl rfl))
  refine isArrow_of_renamed (by rw [hparams]; rfl) (by simpa using hxy.left) (by simp) hbody
    hts.words.cons d fun bs hbs => ?_
  obtain ⟨b, bs, rfl, hb, hbs⟩ := List.map_eq_cons_iff.mp hbs
  rw [hparams]
  refine Renamed.append (Renamed.operand hb ?_) (Renamed.of_words hbs.symm ?_ _)
  · exact ⟨by simp, .inr (by simp)⟩
  · intro t ht hkind
    exact sameParameter_of_mem hts hxy ht hkind (by simp) (by simp)

variable {last : Token} (hlast : ts.getLast? = some last)
  (hcloses : last.kind.closesSection = true)
include hlast hcloses

omit hts hxy in
theorem endsInDot_of_closes (afterDot : Bool) : endsInDot afterDot ts = false := by
  have hdot : last.kind ≠ .dot := by
    intro hdot
    rw [hdot] at hcloses
    cases hcloses
  simp [endsInDot, hlast, hdot]

theorem isArrow_right (hparams : f.params = [leftName])
    (d : Derives true .expr (ts ++ [operand leftName last]) [f.body]) :
    f.IsArrow (arrowText [x] (f.source ++ " " ++ x)) := by
  have hbody : HasWords (f.source ++ " " ++ x).toList []
      (ts.map Token.word ++ [(.ident, x)]) := by
    rw [String.toList_append, String.toList_append, List.append_assoc]
    exact (HasWords.of_lexes hts.lexes (.inr ⟨' ', _, rfl, rfl⟩)).append (hasWords_behind hxy.left)
  refine isArrow_of_renamed (by rw [hparams]; rfl) (by simpa using hxy.left) (by simp) hbody
    hts.words.concat d fun bs hbs => ?_
  obtain ⟨cs, ds, rfl, hcs, hds⟩ := List.map_eq_append_iff.mp hbs
  obtain ⟨e, rfl, he⟩ := List.map_eq_singleton_iff.mp hds
  rw [hparams]
  refine Renamed.append (Renamed.of_words hcs.symm ?_ _) ?_
  · intro t ht hkind
    exact sameParameter_of_mem hts hxy ht hkind (by simp) (by simp)
  · rw [endsInDot_of_closes hlast hcloses]
    exact Renamed.operand he ⟨by simp, .inr (by simp)⟩

theorem isArrow_both {first : Token} (hparams : f.params = [leftName, rightName])
    (d : Derives true .expr (operand leftName first :: (ts ++ [operand rightName last]))
      [f.body]) :
    f.IsArrow (arrowText [x, y] (x ++ " " ++ f.source ++ " " ++ y)) := by
  have hbody : HasWords (x ++ " " ++ f.source ++ " " ++ y).toList []
      ((.ident, x) :: (ts.map Token.word ++ [(.ident, y)])) := by
    simp only [String.toList_append, List.append_assoc]
    rw [← List.append_assoc]
    exact (hasWords_before hxy.left).append
      ((HasWords.of_lexes hts.lexes (.inr ⟨' ', _, rfl, rfl⟩)).append (hasWords_behind hxy.right))
  have hnames : leftName ≠ rightName := by decide
  refine isArrow_of_renamed (by rw [hparams]; rfl) (by simpa using ⟨hxy.left, hxy.right⟩)
    (by simpa using hxy.ne) hbody hts.words.concat.cons d fun bs hbs => ?_
  obtain ⟨b, rest, rfl, hb, hrest⟩ := List.map_eq_cons_iff.mp hbs
  obtain ⟨cs, ds, rfl, hcs, hds⟩ := List.map_eq_append_iff.mp hrest
  obtain ⟨e, rfl, he⟩ := List.map_eq_singleton_iff.mp hds
  rw [hparams]
  refine Renamed.append (Renamed.operand hb ?_) (Renamed.append (Renamed.of_words hcs.symm ?_ _) ?_)
  · exact ⟨by simp [hnames.symm, hxy.ne.symm], .inr (by simp)⟩
  · intro t ht hkind
    exact sameParameter_of_mem hts hxy ht hkind (by simp) (by simp)
  · rw [endsInDot_of_closes hlast hcloses]
    exact Renamed.operand he ⟨by simp [hnames, hxy.ne], .inr (by simp)⟩

end

theorem lacksLeft_eq {first : Token} (h : ts.head? = some first) :
    lacksLeft ts = first.kind.opensSection := by
  rw [lacksLeft, h]
  rfl

theorem lacksRight_eq {last : Token} (h : ts.getLast? = some last) :
    lacksRight ts = last.kind.closesSection := by
  rw [lacksRight, h]
  rfl

theorem isArrow_section (hts : PlainTokens f.source ts) (hxy : FreshOperands ts x y)
    (hform : f.form = .section) {tokens : List Token}
    (hparts : sectionParts? (ts ++ [.stop p]) = some (f.params, tokens))
    (hbody : Tree.ofTokens tokens = .ok f.body) : f.IsArrow (f.asArrow ts x y) := by
  obtain ⟨first, last, hfirst, hlast, h⟩ := sectionParts?_cases hparts
  have hoperand : ∀ name op, (operand name op).kind ≠ .eof := fun name op => by simp [operand]
  rw [asArrow, hform, lacksLeft_eq hfirst, lacksRight_eq hlast]
  rcases h with ⟨hl, hr, hparams, rfl⟩ | ⟨hl, hr, hparams, rfl⟩ | ⟨hl, hr, hparams, rfl⟩
  · rw [hl, hr]
    refine isArrow_left hts hxy hparams ((ofTokens_eq_ok_iff ?_ p _).mp hbody)
    exact List.forall_mem_cons.mpr ⟨hoperand _ _, hts.eof⟩
  · rw [hl]
    refine isArrow_right hts hxy hlast hr hparams ((ofTokens_eq_ok_iff ?_ p _).mp hbody)
    exact List.forall_mem_append.mpr ⟨hts.eof, List.forall_mem_singleton.mpr (hoperand _ _)⟩
  · rw [hl, hr]
    refine isArrow_both hts hxy hlast hr hparams ((ofTokens_eq_ok_iff ?_ p _).mp hbody)
    refine List.forall_mem_cons.mpr ⟨hoperand _ _, List.forall_mem_append.mpr ⟨hts.eof, ?_⟩⟩
    exact List.forall_mem_singleton.mpr (hoperand _ _)

/-- The arrow that a lambda of another form is short for is a lambda of the same arity whose calls
end alike, and no source names the operands that a section lacks. -/
theorem isArrow_asArrow {bound : String → Bool} {source : String}
    (hts : tokenize source = .ok (ts ++ [.stop p])) (hf : ofSource bound source = .ok f)
    (hform : f.form ≠ .arrow) (hxy : f.form = .section → FreshOperands ts x y) :
    f.IsArrow (f.asArrow ts x y) ∧
      ∀ other us, tokenize other = .ok us → ∀ u ∈ us, u.kind = .ident →
        u.text ≠ leftName ∧ u.text ≠ rightName := by
  constructor
  · obtain ⟨tokens, htokens, hf⟩ := ofSource_eq_ok_iff.mp hf
    cases hts.symm.trans htokens
    have hstop : ∀ t ∈ ts, t ∈ ts ++ [Token.stop p] := fun t ht => List.mem_append_left _ ht
    cases compiles_of_ofTokens hf with
    | arrow => exact absurd rfl hform
    | placeholder harrow _ hbody =>
        have hplain := PlainTokens.of_tokenize hts fun t ht => harrow t (hstop t ht)
        have d := (ofTokens_eq_ok_iff hplain.eof p _).mp hbody
        have hname : Lexeme .ident ['_'] := lexeme_ident (by decide) (by simp) (by decide)
        exact isArrow_of_params hplain (List.forall_mem_singleton.mpr hname) (by simp) d
    | «section» harrow _ hparts hbody =>
        have hplain := PlainTokens.of_tokenize hts fun t ht => harrow t (hstop t ht)
        exact isArrow_section hplain (hxy rfl) rfl hparts hbody
    | implicit harrow _ _ hbody =>
        have hplain := PlainTokens.of_tokenize hts fun t ht => harrow t (hstop t ht)
        have d := (ofTokens_eq_ok_iff hplain.eof p _).mp hbody
        refine isArrow_of_params hplain (fun q hq => ?_) nodup_distinct d
        obtain ⟨t, ht, hkind, rfl⟩ := d.mem_freeNames (mem_freeParams.mp hq).1
        exact hkind ▸ hplain.lexes.lexeme_of_mem t ht
  · intro other us hus u hu hkind
    obtain ⟨vs, rfl, hvs⟩ := tokenize_eq_ok_iff.mp hus
    rcases List.mem_append.mp hu with hu | hu
    · have hlexeme := hvs.lexeme_of_mem u hu
      rw [hkind] at hlexeme
      exact hlexeme.ne_operand
    · rw [List.mem_singleton] at hu
      subst hu
      cases hkind

/-- `.length >` is short for `x, y -> x .length > y`. -/
theorem isArrow_asArrow_length :
    ∃ f, ofSource (fun _ => false) ".length >" = .ok f ∧ f.IsArrow "x, y -> x .length > y" := by
  have hts : tokenize ".length >" = .ok ([⟨.dot, ".", ⟨1, 1⟩⟩, ⟨.ident, "length", ⟨1, 2⟩⟩,
      ⟨.gt, ">", ⟨1, 9⟩⟩] ++ [.stop ⟨1, 10⟩]) := by
    rfl
  have hf : ofSource (fun _ => false) ".length >" = .ok ⟨".length >", [leftName, rightName],
      .node .compare (some ⟨1, 1⟩) [.node .chain (some ⟨1, 1⟩) [.leaf .ident leftName,
        .node .field (some ⟨1, 1⟩) [.leaf .name "length"]], .leaf .op ">",
        .leaf .ident rightName], .section⟩ :=
    ofSource_eq_ok_iff.mpr ⟨_, hts, rfl⟩
  have hx : Lexeme .ident "x".toList := by
    rw [show "x".toList = ['x'] from rfl]
    exact lexeme_ident (by decide) (by simp) (by decide)
  have hy : Lexeme .ident "y".toList := by
    rw [show "y".toList = ['y'] from rfl]
    exact lexeme_ident (by decide) (by simp) (by decide)
  have htext : arrowText ["x", "y"] ("x" ++ " " ++ ".length >" ++ " " ++ "y") =
      "x, y -> x .length > y" := by
    decide
  refine ⟨_, hf, ?_⟩
  rw [← htext]
  exact (isArrow_asArrow hts hf (by simp) fun _ => ⟨hx, hy, by decide, by decide⟩).1

end Lambda

end StringLambda
