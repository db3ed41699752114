import StringLambda.Proofs.Caching
import StringLambda.Proofs.Forms.Lockstep
import StringLambda.Proofs.Lexing.Words

namespace StringLambda

open StringLambda.Parser

/-! A source that is refused is refused at a place of its own text. The descent never takes the end
token of what it is handed, so no error is about the token past the end of a list. -/

/-- The place of an error lies behind text of the source that lexes, and in front of what no lexeme
can be read from, of a token, or of nothing. -/
def SourceError.PointsInto (e : SourceError) (source : String) : Prop :=
  ∃ before rest ts, source.toList = before ++ rest ∧ Lexes [] source.toList ts rest ∧
    e.place = .behind before ∧
    match e with
    | .lex e => e.issue.Describes rest
    | .parse _ => rest = [] ∨ ∃ kind w, Reads kind w rest

theorem Position.behind_ne_beyond (text : List Char) : behind text ≠ Token.beyond.place := by
  simp [behind, Token.beyond]

theorem Lexes.exists_of_mem {before text rest : List Char} {ts : List Token} {t : Token}
    (h : Lexes before text ts rest) (ht : t ∈ ts) :
    ∃ read more us, text = read ++ more ∧ Lexes before text us more ∧
      t.place = .behind (before ++ read) ∧ Reads t.kind t.text.toList more := by
  induction h with
  | done => simp at ht
  | @separator before text rest c ts hc _ ih =>
      obtain ⟨read, more, us, rfl, hus, hplace, hreads⟩ := ih ht
      exact ⟨c :: read, more, us, rfl, .separator hc hus, by simpa using hplace, hreads⟩
  | @lexeme before w text rest kind ts hr _ ih =>
      rcases List.mem_cons.mp ht with rfl | ht
      · exact ⟨[], w ++ text, [], rfl, .done, by simp, by simpa using hr⟩
      · obtain ⟨read, more, us, rfl, hus, hplace, hreads⟩ := ih ht
        refine ⟨w ++ read, more, _, by simp, .lexeme hr hus, by simpa using hplace, hreads⟩

namespace Lambda

variable {bound : String → Bool} {source : String} {ts : List Token} {p q : Position}
  {f g : Lambda}

/-- One and the same place, which is that of a token of the list. -/
def SameWithin (ts : List Token) (p q : Position) : Prop :=
  p = q ∧ ∃ t ∈ ts, t.place = p

theorem SameTokens.refl {related : Position → Position → Prop} (heof : ∀ t ∈ ts, t.kind ≠ .eof)
    (h : ∀ t ∈ ts, related t.place t.place) : SameTokens related ts ts :=
  ⟨List.forall₂_same.mpr fun t ht => ⟨rfl, rfl, h t ht⟩, heof⟩

theorem exists_place_of_ofTokens (heof : ∀ t ∈ ts, t.kind ≠ .eof) {e : ParseError}
    (h : ofTokens bound source (ts ++ [.stop p]) = .error e) :
    ∃ t ∈ ts ++ [.stop p], t.place = e.place := by
  have hsame : SameTokens (SameWithin (ts ++ [.stop p])) ts ts :=
    .refl heof fun t ht => ⟨rfl, t, List.mem_append_left _ ht, rfl⟩
  have hend : SameEnd (SameWithin (ts ++ [.stop p])) (.stop p) (.stop p) :=
    ⟨⟨rfl, rfl, rfl, _, List.mem_append_right _ (by simp), rfl⟩, Token.isEnd_stop p⟩
  have hagree := hsame.ofTokens hend (fun p q hpq => congrArg some hpq.1) bound bound source source
  rw [h] at hagree
  cases hagree with
  | error hpq => exact hpq.2

theorem Same.eq (h : Same some bound bound f g) (hsource : f.source = g.source) : f = g := by
  have hbody := h.body
  rw [Tree.mapPlaces_some, Tree.mapPlaces_some] at hbody
  have hparams := h.params_eq
  have hform := h.form
  cases f
  cases g
  simp_all

/-- Whatever tokens the readers find behind the end token, the outcome is the same. -/
theorem ofTokensBy_append (heof : ∀ t ∈ ts, t.kind ≠ .eof) (bound : String → Bool)
    (source : String) (p : Position) (more others : List Token) :
    ofTokensBy (fun us => parameters (us ++ more)) (fun us => Tree.ofTokens (us ++ others))
      bound source (ts ++ [.stop p]) = ofTokens bound source (ts ++ [.stop p]) := by
  have hsame : SameTokens Eq ts ts := .refl heof fun _ _ => rfl
  have hend : SameEnd Eq (.stop p) (.stop p) := ⟨⟨rfl, rfl, rfl⟩, Token.isEnd_stop p⟩
  have hagree := hsame.lambdas
    (fun _ _ _ hk => (hk.append_right more).parameters)
    (fun _ _ _ hk => (hk.append_right others).ofTokens fun _ _ hpq => congrArg some hpq)
    hend bound bound source source
  rw [ofTokensBy_eq] at hagree
  generalize ofTokens bound source (ts ++ [.stop p]) = x at hagree ⊢
  generalize ofTokensBy _ _ bound source (ts ++ [.stop p]) = y at hagree ⊢
  cases hagree with
  | ok h => rw [h.2.2.eq (h.1.trans h.2.1.symm)]
  | error hpq => rw [hpq]

end Lambda

theorem pointsInto_of_ofSource {bound : String → Bool} {source : String} {e : SourceError}
    (h : Lambda.ofSource bound source = .error e) : e.PointsInto source := by
  rcases exists_lexes [] source.toList with ⟨ts, hts⟩ |
    ⟨ts, read, c, rest, issue, heq, hts, hsep, hissue, hdescribes⟩
  · have heof : ∀ t ∈ ts, t.kind ≠ .eof := fun t ht => (hts.lexeme_of_mem t ht).kind_ne_eof
    rw [Lambda.ofSource_of_tokenize (tokenize_of_lexes hts)] at h
    cases hparse : Lambda.ofTokens bound source (ts ++ [.stop (.behind source.toList)]) with
    | ok f =>
        rw [hparse] at h
        cases h
    | error e =>
        rw [hparse] at h
        cases h
        obtain ⟨t, ht, hplace⟩ := Lambda.exists_place_of_ofTokens heof hparse
        rcases List.mem_append.mp ht with ht | ht
        · obtain ⟨read, more, us, heq, hus, hread, hreads⟩ := hts.exists_of_mem ht
          exact ⟨read, more, us, heq, hus, hplace.symm.trans hread, .inr ⟨_, _, hreads⟩⟩
        · rw [List.mem_singleton] at ht
          subst ht
          exact ⟨source.toList, [], ts, by simp, hts, hplace.symm, .inl rfl⟩
  · simp only [Lambda.ofSource, sourceTokens, tokenize_of_describes heq hts hsep hissue] at h
    cases h
    exact ⟨read, c :: rest, ts, heq, hts, rfl, hdescribes⟩

/-- A call that compiles a source and fails tells a place of the source, which is never that of the
token past the end of a list. The readers of parameters and of expressions find the same in what
the forms of the source hand to them, whatever stands behind the end token. -/
theorem compile_points (m : Machine) (source : String) (names : List Key) :
    (∀ stop after, Run.compile source names m = .error stop after →
      ∃ e : SourceError, stop = .fault (.source e) ∧ e.PointsInto source ∧
        e.place ≠ Token.beyond.place) ∧
    ∀ tokens, tokenize source = .ok tokens →
      ∀ (bound : String → Bool) (more others : List Token),
        Lambda.ofTokensBy (fun us => parameters (us ++ more))
          (fun us => Tree.ofTokens (us ++ others)) bound source tokens =
            Lambda.ofTokens bound source tokens := by
  constructor
  · intro stop after h
    rcases Run.compile_cases source names m with ⟨id, f, -, -, hm⟩ |
      ⟨-, ⟨f, -, hm⟩ | ⟨e, he, hm⟩⟩
    · cases hm.symm.trans h
    · cases hm.symm.trans h
    · cases hm.symm.trans h
      have hpoints := pointsInto_of_ofSource he
      refine ⟨e, rfl, hpoints, ?_⟩
      obtain ⟨before, _, _, -, -, hplace, -⟩ := hpoints
      rw [hplace]
      exact Position.behind_ne_beyond before
  · intro tokens htokens bound more others
    obtain ⟨ts, rfl, hts⟩ := tokenize_eq_ok_iff.mp htokens
    exact Lambda.ofTokensBy_append (fun t ht => (hts.lexeme_of_mem t ht).kind_ne_eof) bound source _
      more others

/-- The parenthesis that nothing closes is missed at the end of the source, on its second line. -/
theorem compile_points_unclosed :
    ∃ e after, Run.compile "x ->\n(x" [] .initial = .error (.fault (.source e)) after ∧
      e.place = ⟨2, 3⟩ ∧ e.PointsInto "x ->\n(x" ∧ e.place ≠ Token.beyond.place := by
  have hts : tokenize "x ->\n(x" = .ok [⟨.ident, "x", ⟨1, 1⟩⟩, ⟨.arrow, "->", ⟨1, 3⟩⟩,
    ⟨.lpar, "(", ⟨2, 1⟩⟩, ⟨.ident, "x", ⟨2, 2⟩⟩, .stop ⟨2, 3⟩] := rfl
  have herror : Lambda.ofSource (Machine.initial.binds (.ofList [])) "x ->\n(x" =
      .error (.parse ⟨.unclosedParenthesis, ⟨2, 3⟩⟩) := by
    rw [Lambda.ofSource_of_tokenize hts]
    rfl
  have h : Run.compile "x ->\n(x" [] .initial =
      .error (.fault (.source (.parse ⟨.unclosedParenthesis, ⟨2, 3⟩⟩))) .initial :=
    (Run.compile_of_none "x ->\n(x" [] .initial rfl).trans
      (Run.compileAnew_of_error .initial herror)
  obtain ⟨e, hstop, hpoints, hplace⟩ := (compile_points .initial "x ->\n(x" []).1 _ _ h
  cases hstop
  exact ⟨_, _, h, rfl, hpoints, hplace⟩

end StringLambda
