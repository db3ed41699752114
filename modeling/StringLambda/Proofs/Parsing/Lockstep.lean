import Mathlib.Data.List.Forall2
import StringLambda.Proofs.Parsing.Completeness
import StringLambda.Proofs.Parsing.Parameters

namespace StringLambda

open StringLambda.Parser

/-! The descent looks at the kinds and the texts of tokens up to the first end token: two lists that
agree there are read alike, with trees that differ at most in the places. -/

namespace Tree

mutual

/-- The tree with `place` for each of its places. -/
def mapPlaces (place : Position → Option Position) : Tree → Tree
  | leaf kind text => leaf kind text
  | node label p children => node label (p.bind place) (mapPlacesOf place children)

def mapPlacesOf (place : Position → Option Position) : List Tree → List Tree
  | [] => []
  | t :: ts => t.mapPlaces place :: mapPlacesOf place ts

end

mutual

@[simp] theorem mapPlaces_some (t : Tree) : t.mapPlaces some = t := by
  cases t with
  | leaf => rfl
  | node label p children =>
      rw [mapPlaces, mapPlacesOf_some children]
      cases p <;> rfl

@[simp] theorem mapPlacesOf_some (ts : List Tree) : mapPlacesOf some ts = ts := by
  cases ts with
  | nil => rfl
  | cons t ts => rw [mapPlacesOf, mapPlaces_some t, mapPlacesOf_some ts]

end

mutual

theorem freeNames_mapPlaces (place : Position → Option Position) (t : Tree) :
    (t.mapPlaces place).freeNames = t.freeNames := by
  cases t with
  | leaf => rfl
  | node label p children =>
      rw [mapPlaces]
      by_cases hlabel : label = .arrow
      · subst hlabel
        rfl
      · rw [freeNames_node hlabel, freeNames_node hlabel, freeNamesOf_mapPlacesOf place children]

theorem freeNamesOf_mapPlacesOf (place : Position → Option Position) (ts : List Tree) :
    freeNamesOf (mapPlacesOf place ts) = freeNamesOf ts := by
  cases ts with
  | nil => rfl
  | cons t ts =>
      rw [mapPlacesOf, freeNamesOf, freeNamesOf, freeNames_mapPlaces place t,
        freeNamesOf_mapPlacesOf place ts]

end

def unplaced (t : Tree) : Tree :=
  t.mapPlaces fun _ => none

end Tree

/-- Two results are related, or both are errors over one issue at related places. -/
inductive Agree (related : Position → Position → Prop) {α β : Type} (R : α → β → Prop) :
    Parsed α → Parsed β → Prop
  | ok {a : α} {b : β} : R a b → Agree related R (.ok a) (.ok b)
  | error {issue : ParseIssue} {p q : Position} :
      related p q → Agree related R (.error ⟨issue, p⟩) (.error ⟨issue, q⟩)

namespace Agree

variable {related : Position → Position → Prop} {α β γ δ : Type} {R : α → β → Prop}
  {S : γ → δ → Prop} {x : Parsed α} {y : Parsed β} {f : α → Parsed γ} {g : β → Parsed δ}

theorem bind (h : Agree related R x y) (hfg : ∀ a b, R a b → Agree related S (f a) (g b)) :
    Agree related S (x >>= f) (y >>= g) := by
  cases h with
  | ok hab => exact hfg _ _ hab
  | error hpq => exact .error hpq

theorem map {x y : Parsed α} (h : Agree related (· = ·) x y) (f : α → β) :
    Agree related (· = ·) (x.map f) (y.map f) := by
  cases h with
  | ok hab => exact .ok (congrArg f hab)
  | error hpq => exact .error hpq

theorem mono {T : α → β → Prop} (h : Agree related R x y) (hRT : ∀ a b, R a b → T a b) :
    Agree related T x y := by
  cases h with
  | ok hab => exact .ok (hRT _ _ hab)
  | error hpq => exact .error hpq

end Agree

/-- Two tokens say the same at related places. -/
structure Token.Like (related : Position → Position → Prop) (t u : Token) : Prop where
  kind : t.kind = u.kind
  text : t.text = u.text
  place : related t.place u.place

/-- An end token that is no member name. -/
structure Token.IsEnd (t : Token) : Prop where
  kind : t.kind = .eof
  text : Text.isIdentifier t.text = false

theorem Token.isEnd_stop (p : Position) : (Token.stop p).IsEnd :=
  ⟨rfl, rfl⟩

/-- Two lists have alike tokens, so many before their first end token. Whatever follows it may
differ. -/
inductive Follows (related : Position → Position → Prop) :
    Nat → List Token → List Token → Prop
  | stop {t u : Token} {ts us : List Token} :
      t.Like related u → t.IsEnd → Follows related 0 (t :: ts) (u :: us)
  | step {k : Nat} {t u : Token} {ts us : List Token} :
      t.Like related u → t.kind ≠ .eof → Follows related k ts us →
      Follows related (k + 1) (t :: ts) (u :: us)

namespace Follows

variable {related : Position → Position → Prop} {k : Nat} {ts us : List Token} {t u : Token}

theorem head (h : Follows related k ts us) :
    (current ts).Like related (current us) := by
  cases h with
  | stop ht _ => exact ht
  | step ht _ _ => exact ht

theorem tail (h : Follows related k ts us) (hkind : (current ts).kind ≠ .eof) :
    ∃ j, k = j + 1 ∧ Follows related j ts.tail us.tail := by
  cases h with
  | stop _ hend => exact absurd hend.kind hkind
  | step _ _ h => exact ⟨_, rfl, h⟩

theorem ne_nil (h : Follows related k ts us) : ts ≠ [] ∧ us ≠ [] := by
  cases h <;> simp

theorem length_lt (h : Follows related k ts us) : k < ts.length ∧ k < us.length := by
  induction h with
  | stop => simp
  | step _ _ _ ih => simpa using ih

theorem append_right (h : Follows related k ts us) (more : List Token) :
    Follows related k ts (us ++ more) := by
  induction h with
  | stop ht hend => exact .stop ht hend
  | step ht hkind _ ih => exact .step ht hkind ih

theorem of_forall₂ (h : List.Forall₂ (Token.Like related) ts us)
    (heof : ∀ t ∈ ts, t.kind ≠ .eof) (hstop : t.Like related u) (hend : t.IsEnd) :
    ∃ k, Follows related k (ts ++ [t]) (us ++ [u]) := by
  induction h with
  | nil => exact ⟨0, .stop hstop hend⟩
  | cons ht _ ih =>
      rw [List.forall_mem_cons] at heof
      obtain ⟨k, hk⟩ := ih heof.2
      exact ⟨k + 1, .step ht heof.1 hk⟩

theorem isMemberName (h : Follows related k ts us) :
    Parser.isMemberName (current ts) = Parser.isMemberName (current us) := by
  simp only [Parser.isMemberName, h.head.kind, h.head.text]

theorem tail_of_isMemberName (h : Follows related k ts us)
    (hname : Parser.isMemberName (current ts) = true) :
    ∃ j, k = j + 1 ∧ Follows related j ts.tail us.tail := by
  cases h with
  | stop _ hend => simp [Parser.isMemberName, hend.kind, hend.text] at hname
  | step _ _ h => exact ⟨_, rfl, h⟩

end Follows

/-- A depth at which a phrase is read, or refused, with so many tokens before the end token. -/
def depthBefore (s : Symbol) (k : Nat) : Nat :=
  16 * k + (14 - s.level)

/-- Two readings read the same apart from places, and leave lists that agree and that are fewer than
`k` tokens away from their end. -/
structure SameReading (related : Position → Position → Prop) {α : Type} (read : α → α)
    (k : Nat) (x y : α × List Token) : Prop where
  read : read x.1 = read y.1
  rest : ∃ j < k, Follows related j x.2 y.2

/-- The functions of the descent at one depth, and at any other that is enough, read lists that
agree alike. -/
structure InStep (related : Position → Position → Prop) (place : Position → Option Position)
    (n : Nat) : Prop where
  expr : ∀ {k ts us m}, Follows related k ts us → depthBefore .expr k ≤ n →
    depthBefore .expr k ≤ m →
    Agree related (SameReading related (Tree.mapPlaces place) k) (expr n ts) (expr m us)
  tier : ∀ {tr k ts us m}, Follows related k ts us → depthBefore (.tier tr) k ≤ n →
    depthBefore (.tier tr) k ≤ m →
    Agree related (SameReading related (Tree.mapPlaces place) k) (tier n tr ts) (tier m tr us)
  tierTail : ∀ {tr k ts us m p q l l'}, Follows related k ts us → 16 * k < n → 16 * k < m →
    place p = place q → l.mapPlaces place = l'.mapPlaces place →
    Agree related (SameReading related (Tree.mapPlaces place) (k + 1))
      (tierTail n tr p l ts) (tierTail m tr q l' us)
  power : ∀ {k ts us m}, Follows related k ts us → depthBefore .power k ≤ n →
    depthBefore .power k ≤ m →
    Agree related (SameReading related (Tree.mapPlaces place) k) (power n ts) (power m us)
  unary : ∀ {k ts us m}, Follows related k ts us → depthBefore .unary k ≤ n →
    depthBefore .unary k ≤ m →
    Agree related (SameReading related (Tree.mapPlaces place) k) (unary n ts) (unary m us)
  postfixed : ∀ {k ts us m}, Follows related k ts us → depthBefore .postfixed k ≤ n →
    depthBefore .postfixed k ≤ m →
    Agree related (SameReading related (Tree.mapPlaces place) k) (postfixed n ts) (postfixed m us)
  stepsAfter : ∀ {k ts us m}, Follows related k ts us → depthBefore .steps k ≤ n →
    depthBefore .steps k ≤ m →
    Agree related (SameReading related (Tree.mapPlacesOf place) (k + 1))
      (stepsAfter n ts) (stepsAfter m us)
  primary : ∀ {k ts us m}, Follows related k ts us → depthBefore .primary k ≤ n →
    depthBefore .primary k ≤ m →
    Agree related (SameReading related (Tree.mapPlaces place) k) (primary n ts) (primary m us)
  items : ∀ {close k ts us m}, Follows related k ts us → depthBefore .items k ≤ n →
    depthBefore .items k ≤ m →
    Agree related (SameReading related (Tree.mapPlacesOf place) (k + 1))
      (items n close ts) (items m close us)

section

variable {related : Position → Position → Prop} {place : Position → Option Position}
  {k n m : Nat} {ts us : List Token} {tr : Tier}

theorem Symbol.level_le (s : Symbol) : s.level ≤ 13 := by
  cases s with
  | tier t => exact Nat.le_trans t.level_bounds.2 (by decide)
  | _ => decide

theorem lt_of_depthBefore {s : Symbol} (h : depthBefore s k ≤ n) : 16 * k < n := by
  have hs := s.level_le
  unfold depthBefore at h
  omega

theorem exists_succ_of_depthBefore {s : Symbol} (h : depthBefore s k ≤ n) : ∃ j, n = j + 1 :=
  ⟨n - 1, by have := lt_of_depthBefore h; omega⟩

theorem depthBefore_of_level {s s' : Symbol} (h : depthBefore s k ≤ n + 1)
    (hlevel : s.level < s'.level) : depthBefore s' k ≤ n := by
  have hs := s'.level_le
  unfold depthBefore at h ⊢
  omega

theorem depthBefore_of_lt {s : Symbol} {j : Nat} (h : 16 * k < n + 1) (hj : j < k) :
    depthBefore s j ≤ n := by
  unfold depthBefore
  omega

theorem Follows.fail {α β : Type} {R : α → β → Prop} (h : Follows related k ts us)
    (issue : ParseIssue) : Agree related R (fail issue ts) (fail issue us) :=
  .error h.head.place

theorem Follows.expect (h : Follows related k ts us) {kind : Kind} (hkind : kind ≠ .eof)
    (issue : ParseIssue) :
    Agree related (fun ts us => ∃ j, k = j + 1 ∧ Follows related j ts us)
      (expect kind issue ts) (expect kind issue us) := by
  simp only [Parser.expect, ← h.head.kind]
  split
  next heq => exact .ok (h.tail (heq ▸ hkind))
  next => exact h.fail issue

theorem inStep_zero : InStep related place 0 where
  expr _ h := absurd (lt_of_depthBefore h) (Nat.not_lt_zero _)
  tier _ h := absurd (lt_of_depthBefore h) (Nat.not_lt_zero _)
  tierTail _ h := absurd h (Nat.not_lt_zero _)
  power _ h := absurd (lt_of_depthBefore h) (Nat.not_lt_zero _)
  unary _ h := absurd (lt_of_depthBefore h) (Nat.not_lt_zero _)
  postfixed _ h := absurd (lt_of_depthBefore h) (Nat.not_lt_zero _)
  stepsAfter _ h := absurd (lt_of_depthBefore h) (Nat.not_lt_zero _)
  primary _ h := absurd (lt_of_depthBefore h) (Nat.not_lt_zero _)
  items _ h := absurd (lt_of_depthBefore h) (Nat.not_lt_zero _)

end

theorem Tree.mapPlaces_join (place : Position → Option Position) (tr : Tier) (p : Position)
    (l : Tree) (op : Token) (r : Tree) :
    (tr.join p l op r).mapPlaces place =
      match tr with
      | .nullish => .node .nullish (place p) [l.mapPlaces place, r.mapPlaces place]
      | .or => .node .or (place p) [l.mapPlaces place, r.mapPlaces place]
      | .and => .node .and (place p) [l.mapPlaces place, r.mapPlaces place]
      | .equality | .relation =>
        .node .compare (place p) [l.mapPlaces place, .leaf .op op.text, r.mapPlaces place]
      | .sum => .node .add (place p) [l.mapPlaces place, .leaf .op op.text, r.mapPlaces place]
      | .product =>
        .node .mul (place p) [l.mapPlaces place, .leaf .op op.text, r.mapPlaces place] := by
  cases tr <;> rfl

namespace InStep

variable {related : Position → Position → Prop} {place : Position → Option Position}
  (hplace : ∀ p q, related p q → place p = place q)
  {k n m : Nat} (ih : InStep related place n) {ts us : List Token} {tr : Tier}
  (h : Follows related k ts us)

include ih h

/-! Where a token has been taken, the fuel is enough for any phrase. -/

section

variable {i : Nat} (hk : k < i) (hn : 16 * i < n + 1) (hm : 16 * i < m + 1)
include hk hn hm

theorem expr_of_lt : Agree related (SameReading related (Tree.mapPlaces place) k)
    (Parser.expr n ts) (Parser.expr m us) :=
  ih.expr h (depthBefore_of_lt hn hk) (depthBefore_of_lt hm hk)

theorem items_of_lt {close : Kind} :
    Agree related (SameReading related (Tree.mapPlacesOf place) (k + 1))
      (Parser.items n close ts) (Parser.items m close us) :=
  ih.items h (depthBefore_of_lt hn hk) (depthBefore_of_lt hm hk)

theorem stepsAfter_of_lt :
    Agree related (SameReading related (Tree.mapPlacesOf place) (k + 1))
      (Parser.stepsAfter n ts) (Parser.stepsAfter m us) :=
  ih.stepsAfter h (depthBefore_of_lt hn hk) (depthBefore_of_lt hm hk)

end

theorem operand (hn : depthBefore (.operandOf tr) k ≤ n)
    (hm : depthBefore (.operandOf tr) k ≤ m) :
    Agree related (SameReading related (Tree.mapPlaces place) k)
      (operand n tr ts) (operand m tr us) := by
  cases tr with
  | product => exact ih.power h hn hm
  | _ => exact ih.tier h hn hm

include hplace

theorem expr_succ (hn : depthBefore .expr k ≤ n + 1) (hm : depthBefore .expr k ≤ m) :
    Agree related (SameReading related (Tree.mapPlaces place) k)
      (Parser.expr (n + 1) ts) (Parser.expr m us) := by
  obtain ⟨m, rfl⟩ := exists_succ_of_depthBefore hm
  have hn' := lt_of_depthBefore hn
  have hm' := lt_of_depthBefore hm
  simp only [Parser.expr]
  refine (ih.tier h (depthBefore_of_level hn (by decide))
    (depthBefore_of_level hm (by decide))).bind ?_
  rintro ⟨c, rest⟩ ⟨c', rest'⟩ ⟨hc, j, hj, hrest⟩
  dsimp only at hc hrest ⊢
  rw [← hrest.head.kind]
  split
  next hq =>
    obtain ⟨j, rfl, hys⟩ := hrest.tail (by simp [hq])
    refine (ih.expr_of_lt hys (by omega) hn' hm').bind ?_
    rintro ⟨y, rest⟩ ⟨y', rest'⟩ ⟨hy, i, hi, hrest⟩
    dsimp only at hy hrest ⊢
    rw [← hrest.head.kind]
    refine (hrest.expect (by simp) _).bind ?_
    rintro ns ns' ⟨i, rfl, hns⟩
    refine (ih.expr_of_lt hns (by omega) hn' hm').bind ?_
    rintro ⟨z, rest⟩ ⟨z', rest'⟩ ⟨hz, l, hl, hrest⟩
    refine .ok ⟨?_, l, by omega, hrest⟩
    simp_all [Tree.mapPlaces, Tree.mapPlacesOf, hplace _ _ h.head.place]
  next => exact .ok ⟨hc, j, hj, hrest⟩

theorem tier_succ (hn : depthBefore (.tier tr) k ≤ n + 1) (hm : depthBefore (.tier tr) k ≤ m) :
    Agree related (SameReading related (Tree.mapPlaces place) k)
      (Parser.tier (n + 1) tr ts) (Parser.tier m tr us) := by
  obtain ⟨m, rfl⟩ := exists_succ_of_depthBefore hm
  have hn' := lt_of_depthBefore hn
  have hm' := lt_of_depthBefore hm
  have hlevel : (Symbol.tier tr).level < (Symbol.operandOf tr).level := by
    rw [Symbol.level_operandOf, Symbol.level_tier]
    exact Nat.lt_succ_self _
  rw [Parser.tier_succ, Parser.tier_succ]
  refine (ih.operand h (depthBefore_of_level hn hlevel) (depthBefore_of_level hm hlevel)).bind ?_
  rintro ⟨l, rest⟩ ⟨l', rest'⟩ ⟨hl, j, hj, hrest⟩
  refine (ih.tierTail hrest (by omega) (by omega) (hplace _ _ h.head.place) hl).mono ?_
  exact fun _ _ ⟨hread, i, hi, hrest⟩ => ⟨hread, i, by omega, hrest⟩

omit hplace in
theorem tierTail_succ {p q : Position} {l l' : Tree} (hn : 16 * k < n + 1) (hm : 16 * k < m)
    (hpq : place p = place q) (hl : l.mapPlaces place = l'.mapPlaces place) :
    Agree related (SameReading related (Tree.mapPlaces place) (k + 1))
      (Parser.tierTail (n + 1) tr p l ts) (Parser.tierTail m tr q l' us) := by
  obtain ⟨m, rfl⟩ : ∃ j, m = j + 1 := ⟨m - 1, by omega⟩
  rw [Parser.tierTail_succ, Parser.tierTail_succ, ← h.head.kind]
  split
  next hop =>
    have hkind : (current ts).kind ≠ .eof := by
      intro heof
      rw [heof, Tier.operators_eof] at hop
      cases hop
    obtain ⟨j, rfl, htail⟩ := h.tail hkind
    refine (ih.operand htail (depthBefore_of_lt hn (by omega))
      (depthBefore_of_lt hm (by omega))).bind ?_
    rintro ⟨r, rest⟩ ⟨r', rest'⟩ ⟨hr, i, hi, hrest⟩
    have hjoin : (tr.join p l (current ts) r).mapPlaces place =
        (tr.join q l' (current us) r').mapPlaces place := by
      rw [Tree.mapPlaces_join, Tree.mapPlaces_join, hpq, hl, h.head.text,
        show r.mapPlaces place = r'.mapPlaces place from hr]
    refine (ih.tierTail hrest (by omega) (by omega) hpq hjoin).mono ?_
    exact fun _ _ ⟨hread, i, hi, hrest⟩ => ⟨hread, i, by omega, hrest⟩
  next => exact .ok ⟨hl, k, Nat.lt_succ_self k, h⟩

theorem power_succ (hn : depthBefore .power k ≤ n + 1) (hm : depthBefore .power k ≤ m) :
    Agree related (SameReading related (Tree.mapPlaces place) k)
      (Parser.power (n + 1) ts) (Parser.power m us) := by
  obtain ⟨m, rfl⟩ := exists_succ_of_depthBefore hm
  have hn' := lt_of_depthBefore hn
  have hm' := lt_of_depthBefore hm
  simp only [Parser.power]
  refine (ih.unary h (depthBefore_of_level hn (by decide))
    (depthBefore_of_level hm (by decide))).bind ?_
  rintro ⟨b, rest⟩ ⟨b', rest'⟩ ⟨hb, j, hj, hrest⟩
  dsimp only at hb hrest ⊢
  rw [← hrest.head.kind]
  split
  next hpow =>
    obtain ⟨j, rfl, hes⟩ := hrest.tail (by simp [hpow])
    refine (ih.power hes (depthBefore_of_lt hn' (by omega))
      (depthBefore_of_lt hm' (by omega))).bind ?_
    rintro ⟨e, rest⟩ ⟨e', rest'⟩ ⟨he, i, hi, hrest⟩
    refine .ok ⟨?_, i, by omega, hrest⟩
    simp_all [Tree.mapPlaces, Tree.mapPlacesOf, hplace _ _ h.head.place]
  next => exact .ok ⟨hb, j, hj, hrest⟩

theorem unary_succ (hn : depthBefore .unary k ≤ n + 1) (hm : depthBefore .unary k ≤ m) :
    Agree related (SameReading related (Tree.mapPlaces place) k)
      (Parser.unary (n + 1) ts) (Parser.unary m us) := by
  obtain ⟨m, rfl⟩ := exists_succ_of_depthBefore hm
  have hn' := lt_of_depthBefore hn
  have hm' := lt_of_depthBefore hm
  simp only [Parser.unary, signText, ← h.head.kind, ← h.head.text]
  split
  next hsign =>
    have hkind : (current ts).kind ≠ .eof := by
      intro heof
      rw [heof] at hsign
      cases hsign
    obtain ⟨j, rfl, htail⟩ := h.tail hkind
    refine (ih.unary htail (depthBefore_of_lt hn' (by omega))
      (depthBefore_of_lt hm' (by omega))).bind ?_
    rintro ⟨o, rest⟩ ⟨o', rest'⟩ ⟨ho, i, hi, hrest⟩
    refine .ok ⟨?_, i, by omega, hrest⟩
    simp_all [Tree.mapPlaces, Tree.mapPlacesOf, hplace _ _ h.head.place]
  next =>
    exact ih.postfixed h (depthBefore_of_level hn (by decide)) (depthBefore_of_level hm (by decide))

theorem postfixed_succ (hn : depthBefore .postfixed k ≤ n + 1)
    (hm : depthBefore .postfixed k ≤ m) :
    Agree related (SameReading related (Tree.mapPlaces place) k)
      (Parser.postfixed (n + 1) ts) (Parser.postfixed m us) := by
  obtain ⟨m, rfl⟩ := exists_succ_of_depthBefore hm
  have hn' := lt_of_depthBefore hn
  have hm' := lt_of_depthBefore hm
  simp only [Parser.postfixed]
  refine (ih.primary h (depthBefore_of_level hn (by decide))
    (depthBefore_of_level hm (by decide))).bind ?_
  rintro ⟨o, rest⟩ ⟨o', rest'⟩ ⟨ho, j, hj, hrest⟩
  refine (ih.stepsAfter_of_lt hrest hj hn' hm').bind ?_
  rintro ⟨ss, rest⟩ ⟨ss', rest'⟩ ⟨hss, i, hi, hrest⟩
  dsimp only at ho hss hrest ⊢
  cases ss with
  | nil =>
      cases ss' with
      | nil => exact .ok ⟨ho, i, by omega, hrest⟩
      | cons => cases hss
  | cons =>
      cases ss' with
      | nil => cases hss
      | cons =>
          refine .ok ⟨?_, i, by omega, hrest⟩
          simp_all [Tree.mapPlaces, Tree.mapPlacesOf, hplace _ _ h.head.place]

theorem primary_succ (hn : depthBefore .primary k ≤ n + 1) (hm : depthBefore .primary k ≤ m) :
    Agree related (SameReading related (Tree.mapPlaces place) k)
      (Parser.primary (n + 1) ts) (Parser.primary m us) := by
  obtain ⟨m, rfl⟩ := exists_succ_of_depthBefore hm
  have hn' := lt_of_depthBefore hn
  have hm' := lt_of_depthBefore hm
  simp only [Parser.primary, ← h.head.kind, ← h.head.text]
  split
  next hliteral =>
    have hkind : (current ts).kind ≠ .eof := by
      intro heof
      rw [heof] at hliteral
      cases hliteral
    obtain ⟨j, rfl, htail⟩ := h.tail hkind
    exact .ok ⟨rfl, j, Nat.lt_succ_self j, htail⟩
  next =>
    split
    next hident =>
      obtain ⟨j, rfl, htail⟩ := h.tail (by simp [hident])
      exact .ok ⟨rfl, j, Nat.lt_succ_self j, htail⟩
    next hleft =>
      obtain ⟨j, rfl, htail⟩ := h.tail (by simp [hleft])
      refine (ih.expr_of_lt htail (by omega) hn' hm').bind ?_
      rintro ⟨o, rest⟩ ⟨o', rest'⟩ ⟨ho, i, hi, hrest⟩
      refine (hrest.expect (by simp) _).bind ?_
      rintro ns ns' ⟨i, rfl, hns⟩
      exact .ok ⟨ho, i, by omega, hns⟩
    next hleft =>
      obtain ⟨j, rfl, htail⟩ := h.tail (by simp [hleft])
      refine (ih.items_of_lt htail (by omega) hn' hm').bind ?_
      rintro ⟨o, rest⟩ ⟨o', rest'⟩ ⟨ho, i, hi, hrest⟩
      refine (hrest.expect (by simp) _).bind ?_
      rintro ns ns' ⟨i, rfl, hns⟩
      refine .ok ⟨?_, i, by omega, hns⟩
      simp_all [Tree.mapPlaces, hplace _ _ h.head.place]
    next => exact h.fail _
    next => exact h.fail _

theorem stepsAfter_succ (hn : depthBefore .steps k ≤ n + 1) (hm : depthBefore .steps k ≤ m) :
    Agree related (SameReading related (Tree.mapPlacesOf place) (k + 1))
      (Parser.stepsAfter (n + 1) ts) (Parser.stepsAfter m us) := by
  obtain ⟨m, rfl⟩ := exists_succ_of_depthBefore hm
  have hn' := lt_of_depthBefore hn
  have hm' := lt_of_depthBefore hm
  have hp := hplace _ _ h.head.place
  simp only [Parser.stepsAfter, ← h.head.kind]
  split
  next hdot =>
    obtain ⟨j, rfl, hmember⟩ := h.tail (by simp [hdot])
    simp only [← hmember.isMemberName, ← hmember.head.text]
    split
    next => exact hmember.fail _
    next hname =>
      obtain ⟨j, rfl, hrest⟩ := hmember.tail_of_isMemberName (by simpa using hname)
      simp only [← hrest.head.kind]
      split
      next hleft =>
        obtain ⟨j, rfl, hargs⟩ := hrest.tail (by simp [hleft])
        refine (ih.items_of_lt hargs (by omega) hn' hm').bind ?_
        rintro ⟨as, rest⟩ ⟨as', rest'⟩ ⟨has, i, hi, hrest⟩
        refine (hrest.expect (by simp) _).bind ?_
        rintro ss ss' ⟨i, rfl, hss⟩
        refine (ih.stepsAfter_of_lt hss (by omega) hn' hm').bind ?_
        rintro ⟨steps, rest⟩ ⟨steps', rest'⟩ ⟨hsteps, l, hl, hrest⟩
        refine .ok ⟨?_, l, by omega, hrest⟩
        simp_all [Tree.mapPlaces, Tree.mapPlacesOf]
      next =>
        refine (ih.stepsAfter_of_lt hrest (by omega) hn' hm').bind ?_
        rintro ⟨steps, rest⟩ ⟨steps', rest'⟩ ⟨hsteps, l, hl, hrest⟩
        refine .ok ⟨?_, l, by omega, hrest⟩
        simp_all [Tree.mapPlaces, Tree.mapPlacesOf]
  next hleft =>
    obtain ⟨j, rfl, hindex⟩ := h.tail (by simp [hleft])
    refine (ih.expr_of_lt hindex (by omega) hn' hm').bind ?_
    rintro ⟨o, rest⟩ ⟨o', rest'⟩ ⟨ho, i, hi, hrest⟩
    refine (hrest.expect (by simp) _).bind ?_
    rintro ss ss' ⟨i, rfl, hss⟩
    refine (ih.stepsAfter_of_lt hss (by omega) hn' hm').bind ?_
    rintro ⟨steps, rest⟩ ⟨steps', rest'⟩ ⟨hsteps, l, hl, hrest⟩
    refine .ok ⟨?_, l, by omega, hrest⟩
    simp_all [Tree.mapPlaces, Tree.mapPlacesOf]
  next hleft =>
    obtain ⟨j, rfl, hargs⟩ := h.tail (by simp [hleft])
    refine (ih.items_of_lt hargs (by omega) hn' hm').bind ?_
    rintro ⟨as, rest⟩ ⟨as', rest'⟩ ⟨has, i, hi, hrest⟩
    refine (hrest.expect (by simp) _).bind ?_
    rintro ss ss' ⟨i, rfl, hss⟩
    refine (ih.stepsAfter_of_lt hss (by omega) hn' hm').bind ?_
    rintro ⟨steps, rest⟩ ⟨steps', rest'⟩ ⟨hsteps, l, hl, hrest⟩
    refine .ok ⟨?_, l, by omega, hrest⟩
    simp_all [Tree.mapPlaces, Tree.mapPlacesOf]
  next => exact .ok ⟨rfl, k, Nat.lt_succ_self k, h⟩

omit hplace in
theorem items_succ {close : Kind} (hn : depthBefore .items k ≤ n + 1)
    (hm : depthBefore .items k ≤ m) :
    Agree related (SameReading related (Tree.mapPlacesOf place) (k + 1))
      (Parser.items (n + 1) close ts) (Parser.items m close us) := by
  obtain ⟨m, rfl⟩ := exists_succ_of_depthBefore hm
  have hn' := lt_of_depthBefore hn
  have hm' := lt_of_depthBefore hm
  simp only [Parser.items, ← h.head.kind]
  split
  next => exact .ok ⟨rfl, k, Nat.lt_succ_self k, h⟩
  next =>
    refine (ih.expr h (depthBefore_of_level hn (by decide))
      (depthBefore_of_level hm (by decide))).bind ?_
    rintro ⟨o, rest⟩ ⟨o', rest'⟩ ⟨ho, j, hj, hrest⟩
    dsimp only at ho hrest ⊢
    rw [← hrest.head.kind]
    split
    next hcomma =>
      obtain ⟨j, rfl, hothers⟩ := hrest.tail (by simp [hcomma])
      refine (ih.items_of_lt hothers (by omega) hn' hm').bind ?_
      rintro ⟨os, rest⟩ ⟨os', rest'⟩ ⟨hos, i, hi, hrest⟩
      refine .ok ⟨?_, i, by omega, hrest⟩
      simp_all [Tree.mapPlacesOf]
    next =>
      refine .ok ⟨?_, j, by omega, hrest⟩
      simp_all [Tree.mapPlacesOf]

omit h in
theorem succ : InStep related place (n + 1) where
  expr h := ih.expr_succ hplace h
  tier h := ih.tier_succ hplace h
  tierTail h := ih.tierTail_succ h
  power h := ih.power_succ hplace h
  unary h := ih.unary_succ hplace h
  postfixed h := ih.postfixed_succ hplace h
  stepsAfter h := ih.stepsAfter_succ hplace h
  primary h := ih.primary_succ hplace h
  items h := ih.items_succ h

end InStep

section

variable {related : Position → Position → Prop} {place : Position → Option Position} {k : Nat}
  {ts us : List Token}

theorem inStep (hplace : ∀ p q, related p q → place p = place q) (n : Nat) :
    InStep related place n := by
  induction n with
  | zero => exact inStep_zero
  | succ n ih => exact ih.succ hplace

theorem depthBefore_le_depthBound (s : Symbol) (h : k < ts.length) :
    depthBefore s k ≤ depthBound ts := by
  unfold depthBefore depthBound
  omega

/-- Lists that agree up to an end token are the same expression apart from places, or errors over
the same issue. -/
theorem Follows.ofTokens (hplace : ∀ p q, related p q → place p = place q)
    (h : Follows related k ts us) :
    Agree related (fun t u => t.mapPlaces place = u.mapPlaces place)
      (Tree.ofTokens ts) (Tree.ofTokens us) := by
  simp only [Tree.ofTokens, ← h.head.kind]
  split
  next => exact h.fail _
  next =>
    refine ((inStep hplace _).expr h (depthBefore_le_depthBound _ h.length_lt.1)
      (depthBefore_le_depthBound _ h.length_lt.2)).bind ?_
    rintro ⟨t, rest⟩ ⟨u, rest'⟩ ⟨hread, j, -, hrest⟩
    dsimp only at hread hrest ⊢
    rw [← hrest.head.kind]
    split
    next => exact .ok hread
    next => exact hrest.fail _

theorem parameterNames_of_eof {t : Token} (ht : t.kind = .eof) (seen : List String) :
    parameterNames seen (t :: ts) = .ok [] := by
  rw [parameterNames.eq_def]
  simp only [if_pos ht]

theorem parameterNames_behind {t : Token} {seen : List String} (ht : t.kind = .ident)
    (hseen : t.text ∉ seen) (hts : ts ≠ []) (hcomma : (current ts).kind ≠ .comma) :
    parameterNames seen (t :: ts) =
      if (current ts).kind = .eof then .ok [t.text] else fail .malformedParameters ts := by
  cases ts with
  | nil => exact absurd rfl hts
  | cons next rest =>
      rw [current_cons] at hcomma
      by_cases heof : next.kind = .eof <;> simp [parameterNames, ht, hseen, hcomma, heof, fail]

theorem Follows.parameterNames (h : Follows related k ts us) (seen : List String) :
    Agree related (· = ·) (parameterNames seen ts) (parameterNames seen us) := by
  -- A step of the reader takes a name and a comma.
  induction k using Nat.strongRecOn generalizing ts us seen with
  | _ k ih =>
      cases h with
      | stop ht hend =>
          rw [parameterNames_of_eof hend.kind, parameterNames_of_eof (ht.kind ▸ hend.kind)]
          exact .ok rfl
      | @step k t u ts us ht hkind h =>
          by_cases hident : t.kind = .ident
          case neg =>
            rw [parameterNames_of_kind hkind hident,
              parameterNames_of_kind (ht.kind ▸ hkind) (ht.kind ▸ hident)]
            exact .error ht.place
          by_cases hseen : t.text ∈ seen
          case pos =>
            rw [parameterNames_of_mem hident hseen,
              parameterNames_of_mem (ht.kind ▸ hident) (ht.text ▸ hseen), ht.text]
            exact .error ht.place
          by_cases hcomma : (current ts).kind = .comma
          case pos =>
            cases h with
            | stop _ hend =>
                rw [current_cons, hend.kind] at hcomma
                cases hcomma
            | step hnext _ h =>
                rw [current_cons] at hcomma
                rw [parameterNames_next hident hseen hcomma, parameterNames_next
                  (ht.kind ▸ hident) (ht.text ▸ hseen) (hnext.kind ▸ hcomma), ← ht.text]
                exact (ih _ (by omega) h _).map (t.text :: ·)
          rw [parameterNames_behind hident hseen (h.ne_nil.1) hcomma,
            parameterNames_behind (ht.kind ▸ hident) (ht.text ▸ hseen) h.ne_nil.2
              (h.head.kind ▸ hcomma), ← h.head.kind, ← ht.text]
          split
          next => exact .ok rfl
          next => exact .error h.head.place

theorem Follows.parameters (h : Follows related k ts us) :
    Agree related (· = ·) (parameters ts) (parameters us) :=
  h.parameterNames []

end

end StringLambda
