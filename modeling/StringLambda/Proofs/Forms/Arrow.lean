import StringLambda.Lambda.Compiles
import StringLambda.Proofs.Lexing.Words
import StringLambda.Proofs.Parsing

namespace StringLambda

open StringLambda.Parser

/-! Arrows written out: parameters with commas between them, an arrow and a body. -/

def arrowText (params : List String) (body : String) : String :=
  ", ".intercalate params ++ " -> " ++ body

def parameterWords : List String → List (Kind × String)
  | [] => []
  | [p] => [(.ident, p)]
  | p :: q :: ps => (.ident, p) :: (.comma, ",") :: parameterWords (q :: ps)

theorem intercalate_cons_cons (separator p q : String) (ps : List String) :
    (separator.intercalate (p :: q :: ps)).toList =
      p.toList ++ (separator.toList ++ (separator.intercalate (q :: ps)).toList) := by
  simp only [String.toList_intercalate, List.map_cons, List.intercalate_cons_cons,
    List.append_assoc]

theorem hasWords_parameters {params : List String} {more : List Char} {c : Char}
    (hparams : ∀ p ∈ params, Lexeme .ident p.toList) (hc : isWordChar c = false) :
    HasWords (", ".intercalate params).toList (c :: more) (parameterWords params) := by
  induction params with
  | nil => exact HasWords.nil
  | cons p ps ih =>
      rw [List.forall_mem_cons] at hparams
      cases ps with
      | nil =>
          have hp : HasWords p.toList (c :: more) [(.ident, String.ofList p.toList)] :=
            HasWords.word hparams.1 hc
          rwa [String.ofList_toList] at hp
      | cons q ps =>
          have hp : HasWords p.toList
              (',' :: ' ' :: ((", ".intercalate (q :: ps)).toList ++ c :: more))
              [(.ident, String.ofList p.toList)] :=
            HasWords.word hparams.1 (by decide)
          rw [String.ofList_toList] at hp
          rw [intercalate_cons_cons]
          exact hp.append (.comma (ih hparams.2))

theorem parameterNames_eq {params seen : List String} {front rest : List Token} {stop : Token}
    (hstop : stop.kind = .eof) (hfront : front.map Token.word = parameterWords params)
    (hnodup : params.Nodup) (hseen : ∀ p ∈ params, p ∉ seen) :
    parameterNames seen (front ++ stop :: rest) = .ok params := by
  induction params generalizing seen front with
  | nil =>
      rw [parameterWords, List.map_eq_nil_iff] at hfront
      subst hfront
      rw [List.nil_append, parameterNames.eq_def]
      simp only [hstop, if_true]
  | cons p ps ih =>
      rw [List.forall_mem_cons] at hseen
      cases ps with
      | nil =>
          obtain ⟨t, rfl, ht⟩ := List.map_eq_singleton_iff.mp hfront
          simp only [Token.word, Prod.mk.injEq] at ht
          simp [parameterNames, ht, hseen.1, hstop]
      | cons q ps =>
          obtain ⟨t, _, rfl, ht, hrest⟩ := List.map_eq_cons_iff.mp hfront
          obtain ⟨comma, front, rfl, hcomma, hfront⟩ := List.map_eq_cons_iff.mp hrest
          simp only [Token.word, Prod.mk.injEq] at ht hcomma
          rw [List.nodup_cons] at hnodup
          have hnext : parameterNames (p :: seen) (front ++ stop :: rest) = .ok (q :: ps) := by
            refine ih hfront hnodup.2 fun r hr => ?_
            rw [List.mem_cons, not_or]
            exact ⟨fun heq => hnodup.1 (heq ▸ hr), hseen.2 r hr⟩
          simp [parameterNames, ht, hseen.1, hcomma, hnext, Except.map]

theorem kind_of_parameterWords {params : List String} :
    ∀ w ∈ parameterWords params, w.1 = .ident ∨ w.1 = .comma := by
  induction params with
  | nil => simp [parameterWords]
  | cons p ps ih =>
      cases ps with
      | nil => simp [parameterWords]
      | cons q ps => simpa [parameterWords] using ih

/-- Words of a body: none of them cuts it or ends it. -/
def PlainWords (words : List (Kind × String)) : Prop :=
  ∀ w ∈ words, w.1 ≠ .arrow ∧ w.1 ≠ .eof

namespace PlainWords

variable {words : List (Kind × String)} {x : String}

theorem cons (h : PlainWords words) : PlainWords ((.ident, x) :: words) :=
  List.forall_mem_cons.mpr ⟨by simp, h⟩

theorem concat (h : PlainWords words) : PlainWords (words ++ [(.ident, x)]) :=
  List.forall_mem_append.mpr ⟨h, List.forall_mem_singleton.mpr (by simp)⟩

end PlainWords

theorem current_kind_of_ofTokens {ts : List Token} {t : Tree} (h : Tree.ofTokens ts = .ok t) :
    (current ts).kind ≠ .eof := by
  intro heof
  rw [Tree.ofTokens, if_pos heof] at h
  cases h

theorem Lambda.ofTokens_arrow {front body : List Token} {arrow stop : Token}
    {params : List String} {t : Tree} (bound : String → Bool) (source : String)
    (hfront : ∀ t ∈ front, t.kind ≠ .arrow ∧ t.kind ≠ .eof) (harrow : arrow.kind = .arrow)
    (hbody : ∀ t ∈ body ++ [stop], t.kind ≠ .arrow)
    (hparams : parameters (front ++ [stop]) = .ok params)
    (ht : Tree.ofTokens (body ++ [stop]) = .ok t) :
    Lambda.ofTokens bound source (front ++ arrow :: (body ++ [stop])) =
      .ok ⟨source, params, t, .arrow⟩ := by
  have hcurrent : (current (front ++ arrow :: (body ++ [stop]))).kind ≠ .eof := by
    cases front with
    | nil => simp [current, harrow]
    | cons f front => exact (hfront f (by simp)).2
  have hlast : (front ++ arrow :: (body ++ [stop])).getLastD .beyond = stop := by
    rw [← List.cons_append, ← List.append_assoc, List.getLastD_concat]
  rw [ofTokens, if_neg hcurrent, cutAtArrows_append (fun t h => (hfront t h).1) harrow,
    cutAtArrows_of_none hbody]
  simp only [List.isEmpty_cons, Bool.not_false, if_true, hlast, arrowParts, hparams,
    List.isEmpty_nil, if_neg (current_kind_of_ofTokens ht), ht]
  rfl

section

variable {params : List String} {body : String} {words : List (Kind × String)}

theorem hasWords_arrowFront {more : List Char} (hparams : ∀ p ∈ params, Lexeme .ident p.toList) :
    HasWords (", ".intercalate params ++ " -> ").toList more
      (parameterWords params ++ [(.arrow, "->")]) := by
  have harrow : Lexeme .arrow ['-', '>'] := .operator (by decide)
  have hspace : isSeparator ' ' = true := rfl
  have htext : (", ".intercalate params ++ " -> ").toList =
      (", ".intercalate params).toList ++ ([' '] ++ (['-', '>'] ++ [' '])) := by
    simp [String.toList_append]
  rw [htext]
  refine HasWords.append (hasWords_parameters hparams (by decide)) ?_
  exact (HasWords.separator hspace).append ((HasWords.of_lexeme harrow hspace).append
    (HasWords.separator hspace))

theorem hasWords_arrowText (hparams : ∀ p ∈ params, Lexeme .ident p.toList)
    (hbody : HasWords body.toList [] words) :
    HasWords (arrowText params body).toList []
      (parameterWords params ++ (.arrow, "->") :: words) := by
  have htext : (arrowText params body).toList =
      (", ".intercalate params ++ " -> ").toList ++ body.toList := by
    simp [arrowText, String.toList_append]
  rw [htext, List.append_cons]
  exact (hasWords_arrowFront hparams).append hbody

/-- The tokens of an arrow: parameters, the arrow and a body up to the end of the source. -/
structure ArrowTokens (params : List String) (words : List (Kind × String))
    (front : List Token) (arrow : Token) (bs : List Token) : Prop where
  front : front.map Token.word = parameterWords params
  arrow : arrow.kind = .arrow
  body : bs.map Token.word = words

theorem exists_arrowTokens (hparams : ∀ p ∈ params, Lexeme .ident p.toList)
    (hbody : HasWords body.toList [] words) :
    ∃ front arrow bs p, ArrowTokens params words front arrow bs ∧
      tokenize (arrowText params body) = .ok (front ++ arrow :: (bs ++ [.stop p])) := by
  obtain ⟨ts, hts, hlexes⟩ := (hasWords_arrowText hparams hbody).exists_tokens
  obtain ⟨front, rest, rfl, hfront, hrest⟩ := List.map_eq_append_iff.mp hts
  obtain ⟨arrow, bs, rfl, harrow, hbs⟩ := List.map_eq_cons_iff.mp hrest
  simp only [Token.word, Prod.mk.injEq] at harrow
  refine ⟨front, arrow, bs, .behind (arrowText params body).toList, ⟨hfront, harrow.1, hbs⟩, ?_⟩
  rw [tokenize_of_lexes hlexes, List.append_assoc, List.cons_append]

namespace ArrowTokens

variable {front bs : List Token} {arrow : Token}

theorem kind_of_mem_front (h : ArrowTokens params words front arrow bs) :
    ∀ t ∈ front, t.kind ≠ .arrow ∧ t.kind ≠ .eof := by
  intro t ht
  have hkind : t.kind = .ident ∨ t.kind = .comma :=
    kind_of_parameterWords _ (h.front ▸ List.mem_map_of_mem ht)
  rcases hkind with hkind | hkind <;> simp [hkind]

theorem kind_of_mem_body (h : ArrowTokens params words front arrow bs)
    (hwords : PlainWords words) : ∀ t ∈ bs, t.kind ≠ .arrow ∧ t.kind ≠ .eof := by
  intro t ht
  exact hwords _ (h.body ▸ List.mem_map_of_mem ht)

theorem kind_of_mem_rest (h : ArrowTokens params words front arrow bs)
    (hwords : PlainWords words) (p : Position) : ∀ t ∈ bs ++ [.stop p], t.kind ≠ .arrow := by
  simp only [List.forall_mem_append, List.forall_mem_singleton]
  exact ⟨fun t ht => (h.kind_of_mem_body hwords t ht).1, by simp [Token.stop]⟩

end ArrowTokens

theorem exists_ofSource_arrowText (hparams : ∀ p ∈ params, Lexeme .ident p.toList)
    (hnodup : params.Nodup) (hbody : HasWords body.toList [] words)
    (hwords : PlainWords words) :
    ∃ bs p, bs.map Token.word = words ∧
      ∀ t, Tree.ofTokens (bs ++ [.stop p]) = .ok t →
        ∀ bound, Lambda.ofSource bound (arrowText params body) =
          .ok ⟨arrowText params body, params, t, .arrow⟩ := by
  obtain ⟨front, arrow, bs, p, h, htokens⟩ := exists_arrowTokens hparams hbody
  refine ⟨bs, p, h.body, fun t ht bound => ?_⟩
  refine Lambda.ofSource_eq_ok_iff.mpr ⟨_, htokens, ?_⟩
  refine Lambda.ofTokens_arrow bound _ h.kind_of_mem_front h.arrow (h.kind_of_mem_rest hwords p)
    ?_ ht
  exact parameterNames_eq rfl h.front hnodup (by simp)

theorem exists_of_ofSource_arrowText {bound : String → Bool} {f : Lambda}
    (hparams : ∀ p ∈ params, Lexeme .ident p.toList) (hnodup : params.Nodup)
    (hbody : HasWords body.toList [] words) (hwords : PlainWords words)
    (hf : Lambda.ofSource bound (arrowText params body) = .ok f) :
    ∃ bs p t, bs.map Token.word = words ∧ Tree.ofTokens (bs ++ [.stop p]) = .ok t ∧
      f = ⟨arrowText params body, params, t, .arrow⟩ := by
  obtain ⟨front, arrow, bs, p, h, htokens⟩ := exists_arrowTokens hparams hbody
  obtain ⟨ts, hts, hf⟩ := Lambda.ofSource_eq_ok_iff.mp hf
  cases htokens.symm.trans hts
  have hnames : parameters (front ++ [.stop p]) = .ok params :=
    parameterNames_eq rfl h.front hnodup (by simp)
  have harrow : arrow ∈ front ++ arrow :: (bs ++ [Token.stop p]) := by simp
  cases Lambda.compiles_of_ofTokens hf with
  | @arrow names t _ hparts =>
      rw [Lambda.cutAtArrows_append (fun t ht => (h.kind_of_mem_front t ht).1) h.arrow,
        Lambda.cutAtArrows_of_none (h.kind_of_mem_rest hwords p), ← List.cons_append,
        ← List.append_assoc, List.getLastD_concat] at hparts
      simp only [Lambda.arrowParts, hnames, List.isEmpty_nil, if_true] at hparts
      obtain ⟨_, hread, hparts⟩ := bind_eq_ok_iff.mp hparts
      cases hread
      split at hparts
      next => cases hparts
      next =>
        obtain ⟨t, ht, hparts⟩ := bind_eq_ok_iff.mp hparts
        cases hparts
        exact ⟨bs, p, t, h.body, ht, rfl⟩
  | placeholder hnone => exact absurd h.arrow (hnone _ harrow)
  | «section» hnone => exact absurd h.arrow (hnone _ harrow)
  | implicit hnone => exact absurd h.arrow (hnone _ harrow)

end

end StringLambda
