import StringLambda.Lambda
import StringLambda.Proofs.Parsing.Lockstep

namespace StringLambda

open StringLambda.Parser

/-! Sources whose tokens say the same compile alike, and no form of a source looks behind the end
token of what it hands to the reader of expressions or to the reader of parameters. -/

namespace Lambda

section

variable (names : List Token → Parsed (List String)) (tree : List Token → Parsed Tree)

/-- The parts of an arrow by way of a reader of parameters and a reader of expressions. -/
def arrowPartsBy (stop : Token) (front : List Token) :
    List (List Token) → Parsed (List String × Tree)
  | [] => return ([], ← tree front)
  | body :: others => do
    let params ← names (front ++ [stop])
    if others.isEmpty then
      if (current body).kind = .eof then fail .emptyBody body
      else return (params, ← tree body)
    else
      let (inner, t) ← arrowPartsBy stop body others
      return (params, .node .arrow none [.node .paramlist none (inner.map (.leaf .ident)), t])

def ofTokensBy (bound : String → Bool) (source : String) (ts : List Token) : Parsed Lambda :=
  if (current ts).kind = .eof then fail .emptySource ts
  else
    let (front, others) := cutAtArrows ts
    if !others.isEmpty then do
      let (params, body) ← arrowPartsBy names tree (ts.getLastD .beyond) front others
      return ⟨source, params, body, .arrow⟩
    else if usesPlaceholder false ts then do
      return ⟨source, [placeholderName], ← tree ts, .placeholder⟩
    else
      match sectionParts? ts with
      | some (params, tokens) => do return ⟨source, params, ← tree tokens, .section⟩
      | none => do
        let body ← tree ts
        return ⟨source, freeParams bound body, body, .implicit⟩

end

theorem arrowPartsBy_eq (stop : Token) (front : List Token) (others : List (List Token)) :
    arrowPartsBy parameters Tree.ofTokens stop front others = arrowParts stop front others := by
  induction others generalizing front with
  | nil => rfl
  | cons body others ih => rw [arrowPartsBy, arrowParts, ih]

theorem ofSource_of_tokenize {bound : String → Bool} {source : String} {tokens : List Token}
    (h : tokenize source = .ok tokens) :
    ofSource bound source = (ofTokens bound source tokens).mapError .parse := by
  rw [ofSource, sourceTokens, h]
  rfl

theorem ofTokensBy_eq : ofTokensBy parameters Tree.ofTokens = ofTokens := by
  have harrows : arrowPartsBy parameters Tree.ofTokens = arrowParts := by
    funext stop front others
    exact arrowPartsBy_eq ..
  unfold ofTokensBy
  rw [harrows]
  rfl

/-- Tokens that say the same, without end tokens. -/
structure SameTokens (related : Position → Position → Prop) (ts us : List Token) : Prop where
  like : List.Forall₂ (Token.Like related) ts us
  eof : ∀ t ∈ ts, t.kind ≠ .eof

/-- End tokens that say the same. -/
structure SameEnd (related : Position → Position → Prop) (t u : Token) : Prop where
  like : t.Like related u
  isEnd : t.IsEnd

namespace SameTokens

variable {related : Position → Position → Prop} {ts us : List Token} {t u : Token}

theorem nil : SameTokens related [] [] :=
  ⟨.nil, by simp⟩

theorem cons (ht : t.Like related u) (heof : t.kind ≠ .eof) (h : SameTokens related ts us) :
    SameTokens related (t :: ts) (u :: us) :=
  ⟨.cons ht h.like, List.forall_mem_cons.mpr ⟨heof, h.eof⟩⟩

theorem concat (h : SameTokens related ts us) (ht : t.Like related u) (heof : t.kind ≠ .eof) :
    SameTokens related (ts ++ [t]) (us ++ [u]) :=
  ⟨List.rel_append h.like (.cons ht .nil),
    List.forall_mem_append.mpr ⟨h.eof, List.forall_mem_singleton.mpr heof⟩⟩

theorem follows (h : SameTokens related ts us) (hstop : SameEnd related t u) :
    ∃ k, Follows related k (ts ++ [t]) (us ++ [u]) :=
  Follows.of_forall₂ h.like h.eof hstop.like hstop.isEnd

end SameTokens

/-- Lists between arrows that say the same; the last ones are closed by end tokens. -/
inductive SameCuts (related : Position → Position → Prop) (t u : Token) :
    List Token × List (List Token) → List Token × List (List Token) → Prop
  | last {ts us : List Token} : SameTokens related ts us →
      SameCuts related t u (ts ++ [t], []) (us ++ [u], [])
  | cut {ts us front front' : List Token} {others others' : List (List Token)} :
      SameTokens related ts us → SameCuts related t u (front, others) (front', others') →
      SameCuts related t u (ts, front :: others) (us, front' :: others')

section

variable {related : Position → Position → Prop} {ts us : List Token} {t u : Token}

theorem SameCuts.cons {a b : Token} {front front' : List Token} {others others' : List (List Token)}
    (ha : a.Like related b) (heof : a.kind ≠ .eof)
    (h : SameCuts related t u (front, others) (front', others')) :
    SameCuts related t u (a :: front, others) (b :: front', others') := by
  cases h with
  | last h => exact .last (h.cons ha heof)
  | cut h hcuts => exact .cut (h.cons ha heof) hcuts

theorem SameTokens.cuts (h : SameTokens related ts us) (hstop : SameEnd related t u) :
    SameCuts related t u (cutAtArrows (ts ++ [t])) (cutAtArrows (us ++ [u])) := by
  obtain ⟨hlike, heof⟩ := h
  induction hlike with
  | nil =>
      have ht : t.kind ≠ .arrow := by simp [hstop.isEnd.kind]
      have hu : u.kind ≠ .arrow := hstop.like.kind ▸ ht
      simp only [List.nil_append, cutAtArrows, if_neg ht, if_neg hu]
      exact .last .nil
  | @cons a b _ _ ha _ ih =>
      rw [List.forall_mem_cons] at heof
      have hcuts := ih heof.2
      simp only [List.cons_append, cutAtArrows, ← ha.kind]
      split
      next => exact .cut .nil hcuts
      next => exact hcuts.cons ha heof.1

theorem SameTokens.usesPlaceholder_eq (h : SameTokens related ts us) (hstop : SameEnd related t u)
    (afterDot : Bool) :
    usesPlaceholder afterDot (ts ++ [t]) = usesPlaceholder afterDot (us ++ [u]) := by
  have hlike : List.Forall₂ (Token.Like related) (ts ++ [t]) (us ++ [u]) :=
    List.rel_append h.like (.cons hstop.like .nil)
  generalize ts ++ [t] = ts at hlike ⊢
  generalize us ++ [u] = us at hlike ⊢
  induction hlike generalizing afterDot with
  | nil => rfl
  | cons ha _ ih => simp only [usesPlaceholder, ha.kind, ha.text, ih]

theorem SameTokens.ends (h : SameTokens related ts us) (hts : ts ≠ []) :
    ∃ first first' last last', ts.head? = some first ∧ us.head? = some first' ∧
      ts.getLast? = some last ∧ us.getLast? = some last' ∧
      first.Like related first' ∧ last.Like related last' := by
  obtain ⟨hlike, -⟩ := h
  induction hlike with
  | nil => exact absurd rfl hts
  | @cons a b as bs ha has ih =>
      cases has with
      | nil => exact ⟨a, b, a, b, rfl, rfl, rfl, rfl, ha, ha⟩
      | cons =>
          obtain ⟨_, _, last, last', -, -, hlast, hlast', -, hl⟩ := ih (by simp)
          exact ⟨a, b, last, last', rfl, rfl, hlast, hlast', ha, hl⟩

theorem operand_like {a b : Token} (h : a.Like related b) (name : String) :
    (operand name a).Like related (operand name b) :=
  ⟨rfl, rfl, h.place⟩

theorem SameTokens.sections (h : SameTokens related ts us) (t u : Token) :
    (sectionParts? (ts ++ [t]) = none ∧ sectionParts? (us ++ [u]) = none) ∨
    ∃ params vs ws, sectionParts? (ts ++ [t]) = some (params, vs ++ [t]) ∧
      sectionParts? (us ++ [u]) = some (params, ws ++ [u]) ∧ SameTokens related vs ws := by
  by_cases hts : ts = []
  · subst hts
    cases h.like
    exact .inl ⟨rfl, rfl⟩
  · obtain ⟨first, first', last, last', hfirst, hfirst', hlast, hlast', hf, hl⟩ := h.ends hts
    have hident (name : String) (op : Token) : (operand name op).kind ≠ .eof := by simp [operand]
    simp only [sectionParts?, List.dropLast_concat, hfirst, hfirst', hlast, hlast',
      ← hf.kind, ← hl.kind]
    split
    next => exact .inl ⟨rfl, rfl⟩
    next =>
      refine .inr ⟨[leftName], operand leftName first :: ts, operand leftName first' :: us,
        ?_, ?_, ?_⟩
      · simp
      · simp
      · exact h.cons (operand_like hf _) (hident _ _)
    next =>
      refine .inr ⟨[leftName], ts ++ [operand leftName last], us ++ [operand leftName last'],
        ?_, ?_, ?_⟩
      · simp
      · simp
      · exact h.concat (operand_like hl _) (hident _ _)
    next =>
      refine .inr ⟨[leftName, rightName],
        operand leftName first :: (ts ++ [operand rightName last]),
        operand leftName first' :: (us ++ [operand rightName last']), ?_, ?_, ?_⟩
      · simp
      · simp
      · exact (h.concat (operand_like hl _) (hident _ _)).cons (operand_like hf _) (hident _ _)

end

/-- Two lambdas of one form with the same body apart from places. Only the parameters of an
expression depend on the names that were bound outside. -/
structure Same (place : Position → Option Position) (bound bound' : String → Bool)
    (f g : Lambda) : Prop where
  form : f.form = g.form
  body : f.body.mapPlaces place = g.body.mapPlaces place
  params : f.form ≠ .implicit → f.params = g.params
  free : f.form = .implicit →
    f.params = freeParams bound f.body ∧ g.params = freeParams bound' g.body

/-- Two readers that do not tell lists apart which agree up to an end token. -/
def ReadAlike (related : Position → Position → Prop) {α : Type} (R : α → α → Prop)
    (read read' : List Token → Parsed α) : Prop :=
  ∀ k ts us, Follows related k ts us → Agree related R (read ts) (read' us)

section

variable {related : Position → Position → Prop} {place : Position → Option Position}
  {ts us : List Token} {t u : Token} {names names' : List Token → Parsed (List String)}
  {tree tree' : List Token → Parsed Tree}
  (hnames : ReadAlike related (· = ·) names names')
  (htree : ReadAlike related (fun t u => t.mapPlaces place = u.mapPlaces place) tree tree')
include hnames htree

theorem SameCuts.arrows {cuts cuts' : List Token × List (List Token)}
    (h : SameCuts related t u cuts cuts') (hstop : SameEnd related t u) :
    Agree related (fun x y => x.1 = y.1 ∧ x.2.mapPlaces place = y.2.mapPlaces place)
      (arrowPartsBy names tree t cuts.1 cuts.2)
      (arrowPartsBy names' tree' u cuts'.1 cuts'.2) := by
  induction h with
  | last h =>
      obtain ⟨k, hk⟩ := h.follows hstop
      exact (htree k _ _ hk).bind fun t u htu => .ok ⟨rfl, htu⟩
  | cut h hcuts ih =>
      obtain ⟨k, hk⟩ := h.follows hstop
      refine (hnames k _ _ hk).bind fun params params' hparams => ?_
      subst hparams
      cases hcuts with
      | last hlast =>
          obtain ⟨k, hk⟩ := hlast.follows hstop
          simp only [List.isEmpty_nil, if_true, ← hk.head.kind]
          split
          next => exact hk.fail _
          next => exact (htree k _ _ hk).bind fun t u htu => .ok ⟨rfl, htu⟩
      | cut hfront hcuts =>
          refine ih.bind ?_
          rintro ⟨inner, t⟩ ⟨inner', u⟩ ⟨hinner, htu⟩
          dsimp only at hinner htu
          subst hinner
          refine .ok ⟨rfl, ?_⟩
          simp [Tree.mapPlaces, Tree.mapPlacesOf, htu]

theorem SameTokens.lambdas (h : SameTokens related ts us) (hstop : SameEnd related t u)
    (bound bound' : String → Bool) (source source' : String) :
    Agree related (fun f g => f.source = source ∧ g.source = source' ∧ Same place bound bound' f g)
      (ofTokensBy names tree bound source (ts ++ [t]))
      (ofTokensBy names' tree' bound' source' (us ++ [u])) := by
  obtain ⟨k, hk⟩ := h.follows hstop
  simp only [ofTokensBy, ← hk.head.kind, ← h.usesPlaceholder_eq hstop]
  split
  next => exact hk.fail _
  next =>
    have hcuts := h.cuts hstop
    rw [List.getLastD_concat, List.getLastD_concat]
    generalize cutAtArrows (ts ++ [t]) = cuts at hcuts ⊢
    generalize cutAtArrows (us ++ [u]) = cuts' at hcuts ⊢
    have hparts := hcuts.arrows hnames htree hstop
    cases hcuts with
    | cut hfront hcuts =>
        refine hparts.bind ?_
        rintro ⟨params, body⟩ ⟨params', body'⟩ ⟨hparams, hbody⟩
        exact .ok ⟨rfl, rfl, rfl, hbody, fun _ => hparams, nofun⟩
    | last =>
        simp only [List.isEmpty_nil, Bool.not_true, Bool.false_eq_true, if_false]
        split
        next =>
          exact (htree k _ _ hk).bind fun _ _ hbody =>
            .ok ⟨rfl, rfl, rfl, hbody, fun _ => rfl, nofun⟩
        next =>
          rcases h.sections t u with ⟨hparts, hparts'⟩ |
            ⟨params, vs, ws, hparts, hparts', hsame⟩
          · simp only [hparts, hparts']
            exact (htree k _ _ hk).bind fun _ _ hbody =>
              .ok ⟨rfl, rfl, rfl, hbody, fun hform => absurd rfl hform, fun _ => ⟨rfl, rfl⟩⟩
          · obtain ⟨k, hk⟩ := hsame.follows hstop
            simp only [hparts, hparts']
            exact (htree k _ _ hk).bind fun _ _ hbody =>
              .ok ⟨rfl, rfl, rfl, hbody, fun _ => rfl, nofun⟩

end

theorem Same.params_eq {place : Position → Option Position} {bound : String → Bool} {f g : Lambda}
    (h : Same place bound bound f g) : f.params = g.params := by
  by_cases hform : f.form = .implicit
  · rw [(h.free hform).1, (h.free hform).2, freeParams, freeParams,
      ← Tree.freeNames_mapPlaces place f.body, h.body, Tree.freeNames_mapPlaces]
  · exact h.params hform

section

variable {related : Position → Position → Prop} {place : Position → Option Position}
  {ts us : List Token} {t u : Token}

/-- Tokens that say the same compile to the same lambda apart from places, or to errors over the
same issue. -/
theorem SameTokens.ofTokens (h : SameTokens related ts us) (hstop : SameEnd related t u)
    (hplace : ∀ p q, related p q → place p = place q) (bound bound' : String → Bool)
    (source source' : String) :
    Agree related (fun f g => f.source = source ∧ g.source = source' ∧ Same place bound bound' f g)
      (ofTokens bound source (ts ++ [t])) (Lambda.ofTokens bound' source' (us ++ [u])) := by
  rw [← ofTokensBy_eq]
  exact h.lambdas (fun _ _ _ hk => hk.parameters) (fun _ _ _ hk => hk.ofTokens hplace) hstop
    bound bound' source source'

end

end Lambda

end StringLambda
