import StringLambda.Tree.Grammar

namespace StringLambda.Parser

/-! Whatever the descent reads is a phrase of the grammar. -/

/-- The tokens read are a phrase, and the tokens left come after it. -/
def Reads (s : Symbol) (ts : List Token) (out : List Tree) (rest : List Token) : Prop :=
  ∃ phrase, ts = phrase ++ rest ∧ Derives true s phrase out

/-- The functions of the descent at one depth read phrases. -/
structure Sound (n : Nat) : Prop where
  expr : ∀ {ts rest t}, expr n ts = .ok (t, rest) → Reads .expr ts [t] rest
  tier : ∀ {tr ts rest t}, tier n tr ts = .ok (t, rest) → Reads (.tier tr) ts [t] rest
  tierTail : ∀ {tr ls l ts rest t}, Derives true (.tier tr) ls [l] →
    tierTail n tr (placeOf ls) l ts = .ok (t, rest) → Reads (.tier tr) (ls ++ ts) [t] rest
  power : ∀ {ts rest t}, power n ts = .ok (t, rest) → Reads .power ts [t] rest
  unary : ∀ {ts rest t}, unary n ts = .ok (t, rest) → Reads .unary ts [t] rest
  postfixed : ∀ {ts rest t}, postfixed n ts = .ok (t, rest) → Reads .postfixed ts [t] rest
  stepsAfter : ∀ {ts rest out}, stepsAfter n ts = .ok (out, rest) → Reads .steps ts out rest
  primary : ∀ {ts rest t}, primary n ts = .ok (t, rest) → Reads .primary ts [t] rest
  items : ∀ {close ts rest out}, items n close ts = .ok (out, rest) → Reads .items ts out rest

theorem sound_zero : Sound 0 where
  expr h := by simp [Parser.expr, fail] at h
  tier h := by simp [Parser.tier, fail] at h
  tierTail _ h := by simp [Parser.tierTail, fail] at h
  power h := by simp [Parser.power, fail] at h
  unary h := by simp [Parser.unary, fail] at h
  postfixed h := by simp [Parser.postfixed, fail] at h
  stepsAfter h := by simp [Parser.stepsAfter, fail] at h
  primary h := by simp [Parser.primary, fail] at h
  items h := by simp [Parser.items, fail] at h

theorem exists_member {ts : List Token} (hdot : (current ts).kind = .dot)
    (hname : isMemberName (current ts.tail) = true) :
    ∃ dot name rest, ts = dot :: name :: rest := by
  cases ts with
  | nil => cases hdot
  | cons dot ts =>
      cases ts with
      | nil => cases hname
      | cons name rest => exact ⟨dot, name, rest, rfl⟩

namespace Sound

variable {n : Nat} (ih : Sound n)

include ih

theorem expr_succ {ts rest : List Token} {t : Tree} (h : Parser.expr (n + 1) ts = .ok (t, rest)) :
    Reads .expr ts [t] rest := by
  simp only [Parser.expr, bind_eq_ok_iff, Prod.exists] at h
  obtain ⟨c, mid, hc, h⟩ := h
  obtain ⟨cs, rfl, dc⟩ := ih.tier hc
  split at h
  next hq =>
    obtain ⟨q, afterQ, rfl⟩ := exists_cons mid (by simp [hq])
    simp only [bind_eq_ok_iff, Prod.exists, expect_eq_ok_iff, List.tail_cons] at h
    obtain ⟨y, mid', hy, _, ⟨ho, rfl⟩, e, mid'', he, h⟩ := h
    obtain ⟨ys, rfl, dy⟩ := ih.expr hy
    obtain ⟨o, afterO, rfl⟩ := exists_cons mid' (by simp [ho])
    obtain ⟨ns, hns, dn⟩ := ih.expr he
    simp only [List.tail_cons] at hns
    subst hns
    cases h
    have d := Derives.conditional dc hq dy ho dn
    refine ⟨cs ++ q :: (ys ++ o :: ns), by simp, ?_⟩
    rwa [← placeOf_append (dc.ne_nil rfl)] at d
  next =>
    cases h
    exact ⟨cs, rfl, .unconditional dc⟩

theorem operand {tr : Tier} {ts rest : List Token} {t : Tree}
    (h : Parser.operand n tr ts = .ok (t, rest)) : Reads (.operandOf tr) ts [t] rest := by
  cases tr with
  | product => exact ih.power h
  | _ => exact ih.tier h

theorem tier_succ {tr : Tier} {ts rest : List Token} {t : Tree}
    (h : Parser.tier (n + 1) tr ts = .ok (t, rest)) : Reads (.tier tr) ts [t] rest := by
  simp only [Parser.tier_succ, bind_eq_ok_iff, Prod.exists] at h
  obtain ⟨l, mid, hl, h⟩ := h
  obtain ⟨ls, rfl, dl⟩ := ih.operand hl
  have hplace : placeOf (ls ++ mid) = placeOf ls :=
    placeOf_append (dl.ne_nil (Symbol.mayBeEmpty_operandOf tr)) mid
  exact ih.tierTail (.operand dl) (by rwa [← hplace])

theorem tierTail_succ {tr : Tier} {ls ts rest : List Token} {l t : Tree}
    (dl : Derives true (.tier tr) ls [l])
    (h : Parser.tierTail (n + 1) tr (placeOf ls) l ts = .ok (t, rest)) :
    Reads (.tier tr) (ls ++ ts) [t] rest := by
  rw [Parser.tierTail_succ] at h
  split at h
  next hop =>
    obtain ⟨op, afterOp, rfl⟩ := exists_cons ts (by
      intro heof
      simp [heof] at hop)
    simp only [bind_eq_ok_iff, Prod.exists, List.tail_cons] at h
    obtain ⟨r, mid, hr, h⟩ := h
    obtain ⟨rs, rfl, dr⟩ := ih.operand hr
    have hplace : placeOf (ls ++ op :: rs) = placeOf ls := placeOf_append (dl.ne_nil rfl) _
    have djoined := Derives.joined dl (joins_iff.mpr ⟨hop, rfl⟩) dr
    rw [← hplace] at h djoined
    obtain ⟨phrase, hphrase, d⟩ := ih.tierTail djoined h
    exact ⟨phrase, by simpa using hphrase, d⟩
  next =>
    cases h
    exact ⟨ls, rfl, dl⟩

theorem power_succ {ts rest : List Token} {t : Tree}
    (h : Parser.power (n + 1) ts = .ok (t, rest)) : Reads .power ts [t] rest := by
  simp only [Parser.power, bind_eq_ok_iff, Prod.exists] at h
  obtain ⟨b, mid, hb, h⟩ := h
  obtain ⟨bs, rfl, db⟩ := ih.unary hb
  split at h
  next hop =>
    obtain ⟨op, afterOp, rfl⟩ := exists_cons mid (by simp [hop])
    simp only [bind_eq_ok_iff, Prod.exists, List.tail_cons] at h
    obtain ⟨e, mid', he, h⟩ := h
    obtain ⟨es, rfl, de⟩ := ih.power he
    cases h
    have d := Derives.raised db hop de
    refine ⟨bs ++ op :: es, by simp, ?_⟩
    rwa [← placeOf_append (db.ne_nil rfl)] at d
  next =>
    cases h
    exact ⟨bs, rfl, .base db⟩

theorem unary_succ {ts rest : List Token} {t : Tree}
    (h : Parser.unary (n + 1) ts = .ok (t, rest)) : Reads .unary ts [t] rest := by
  simp only [Parser.unary] at h
  split at h
  next hop =>
    obtain ⟨op, afterOp, rfl⟩ := exists_cons ts (by
      intro heof
      simp [heof, isSign] at hop)
    simp only [bind_eq_ok_iff, Prod.exists, List.tail_cons] at h
    obtain ⟨u, mid, hu, h⟩ := h
    obtain ⟨us, rfl, du⟩ := ih.unary hu
    cases h
    exact ⟨op :: us, rfl, .signed (signs_iff.mpr ⟨hop, rfl⟩) du⟩
  next =>
    obtain ⟨us, rfl, du⟩ := ih.postfixed h
    exact ⟨us, rfl, .unsigned du⟩

theorem postfixed_succ {ts rest : List Token} {t : Tree}
    (h : Parser.postfixed (n + 1) ts = .ok (t, rest)) : Reads .postfixed ts [t] rest := by
  simp only [Parser.postfixed, bind_eq_ok_iff, Prod.exists] at h
  obtain ⟨head, mid, hhead, steps, mid', hsteps, h⟩ := h
  obtain ⟨hs, rfl, dh⟩ := ih.primary hhead
  obtain ⟨ss, rfl, ds⟩ := ih.stepsAfter hsteps
  cases steps with
  | nil =>
      cases ds
      cases h
      exact ⟨hs, by simp, .bare dh⟩
  | cons s others =>
      cases h
      have d := Derives.chain dh ds
      refine ⟨hs ++ ss, by simp, ?_⟩
      rwa [← placeOf_append (dh.ne_nil rfl)] at d

theorem stepsAfter_succ {ts rest : List Token} {out : List Tree}
    (h : Parser.stepsAfter (n + 1) ts = .ok (out, rest)) : Reads .steps ts out rest := by
  simp only [Parser.stepsAfter] at h
  split at h
  next hdot =>
    split at h
    next => cases h
    next hname =>
      simp only [Bool.not_eq_true', Bool.not_eq_false] at hname
      split at h
      next hleft =>
        obtain ⟨dot, name, afterName, rfl⟩ := exists_member hdot hname
        obtain ⟨left, afterLeft, rfl⟩ := exists_cons afterName (by
          intro heof
          simp [heof] at hleft)
        simp only [bind_eq_ok_iff, Prod.exists, expect_eq_ok_iff, List.tail_cons] at h
        obtain ⟨args, mid, hargs, _, ⟨hright, rfl⟩, others, mid', hothers, h⟩ := h
        obtain ⟨as, rfl, da⟩ := ih.items hargs
        obtain ⟨right, afterRight, rfl⟩ := exists_cons mid (by simp [hright])
        obtain ⟨ss, rfl, ds⟩ := ih.stepsAfter hothers
        cases h
        exact ⟨dot :: name :: left :: (as ++ right :: ss), by simp,
          .method hdot (namesMember_iff.mpr hname) hleft da hright ds⟩
      next hleft =>
        obtain ⟨dot, name, afterName, rfl⟩ := exists_member hdot hname
        simp only [bind_eq_ok_iff, Prod.exists, List.tail_cons] at h
        obtain ⟨others, mid, hothers, h⟩ := h
        obtain ⟨ss, rfl, ds⟩ := ih.stepsAfter hothers
        cases h
        refine ⟨dot :: name :: ss, rfl, .field hdot (namesMember_iff.mpr hname) ds fun _ => ?_⟩
        cases ss with
        | nil => simp [current, Token.beyond]
        | cons s ss => exact hleft
  next hleft =>
    obtain ⟨left, afterLeft, rfl⟩ := exists_cons ts (by simp [hleft])
    simp only [bind_eq_ok_iff, Prod.exists, expect_eq_ok_iff, List.tail_cons] at h
    obtain ⟨i, mid, hi, _, ⟨hright, rfl⟩, others, mid', hothers, h⟩ := h
    obtain ⟨is, rfl, di⟩ := ih.expr hi
    obtain ⟨right, afterRight, rfl⟩ := exists_cons mid (by simp [hright])
    obtain ⟨ss, rfl, ds⟩ := ih.stepsAfter hothers
    cases h
    exact ⟨left :: (is ++ right :: ss), by simp, .index hleft di hright ds⟩
  next hleft =>
    obtain ⟨left, afterLeft, rfl⟩ := exists_cons ts (by simp [hleft])
    simp only [bind_eq_ok_iff, Prod.exists, expect_eq_ok_iff, List.tail_cons] at h
    obtain ⟨args, mid, hargs, _, ⟨hright, rfl⟩, others, mid', hothers, h⟩ := h
    obtain ⟨as, rfl, da⟩ := ih.items hargs
    obtain ⟨right, afterRight, rfl⟩ := exists_cons mid (by simp [hright])
    obtain ⟨ss, rfl, ds⟩ := ih.stepsAfter hothers
    cases h
    exact ⟨left :: (as ++ right :: ss), by simp, .call hleft da hright ds⟩
  next =>
    cases h
    exact ⟨[], rfl, .stepsEnd⟩

theorem primary_succ {ts rest : List Token} {t : Tree}
    (h : Parser.primary (n + 1) ts = .ok (t, rest)) : Reads .primary ts [t] rest := by
  simp only [Parser.primary] at h
  split at h
  next hliteral =>
    obtain ⟨token, after, rfl⟩ := exists_cons ts (by
      intro heof
      simp [heof, Kind.isLiteral] at hliteral)
    cases h
    exact ⟨[token], rfl, .literal (isLiteral_iff.mpr ⟨hliteral, rfl⟩)⟩
  next =>
    split at h
    next hident =>
      obtain ⟨token, after, rfl⟩ := exists_cons ts (by simp [hident])
      cases h
      exact ⟨[token], rfl, .ident hident⟩
    next hleft =>
      obtain ⟨left, afterLeft, rfl⟩ := exists_cons ts (by simp [hleft])
      simp only [bind_eq_ok_iff, Prod.exists, expect_eq_ok_iff, List.tail_cons] at h
      obtain ⟨inner, mid, hinner, _, ⟨hright, rfl⟩, h⟩ := h
      obtain ⟨is, rfl, di⟩ := ih.expr hinner
      obtain ⟨right, afterRight, rfl⟩ := exists_cons mid (by simp [hright])
      cases h
      exact ⟨left :: (is ++ [right]), by simp, .parenthesized hleft di hright⟩
    next hleft =>
      obtain ⟨left, afterLeft, rfl⟩ := exists_cons ts (by simp [hleft])
      simp only [bind_eq_ok_iff, Prod.exists, expect_eq_ok_iff, List.tail_cons] at h
      obtain ⟨elements, mid, helements, _, ⟨hright, rfl⟩, h⟩ := h
      obtain ⟨es, rfl, de⟩ := ih.items helements
      obtain ⟨right, afterRight, rfl⟩ := exists_cons mid (by simp [hright])
      cases h
      exact ⟨left :: (es ++ [right]), by simp, .array hleft de hright⟩
    next => cases h
    next => cases h

theorem items_succ {close : Kind} {ts rest : List Token} {out : List Tree}
    (h : Parser.items (n + 1) close ts = .ok (out, rest)) : Reads .items ts out rest := by
  simp only [Parser.items] at h
  split at h
  next =>
    cases h
    exact ⟨[], rfl, .itemsEnd⟩
  next =>
    simp only [bind_eq_ok_iff, Prod.exists] at h
    obtain ⟨first, mid, hfirst, h⟩ := h
    obtain ⟨fs, rfl, df⟩ := ih.expr hfirst
    split at h
    next hcomma =>
      obtain ⟨comma, afterComma, rfl⟩ := exists_cons mid (by simp [hcomma])
      simp only [bind_eq_ok_iff, Prod.exists, List.tail_cons] at h
      obtain ⟨others, mid', hothers, h⟩ := h
      obtain ⟨os, rfl, dos⟩ := ih.items hothers
      cases h
      exact ⟨fs ++ comma :: os, by simp, .item df hcomma dos⟩
    next =>
      cases h
      exact ⟨fs, rfl, .lastItem df⟩

theorem succ : Sound (n + 1) where
  expr := ih.expr_succ
  tier := ih.tier_succ
  tierTail := ih.tierTail_succ
  power := ih.power_succ
  unary := ih.unary_succ
  postfixed := ih.postfixed_succ
  stepsAfter := ih.stepsAfter_succ
  primary := ih.primary_succ
  items := ih.items_succ

end Sound

theorem sound (n : Nat) : Sound n := by
  induction n with
  | zero => exact sound_zero
  | succ n ih => exact ih.succ

theorem reads_of_ofTokens {ts : List Token} {t : Tree} (h : Tree.ofTokens ts = .ok t) :
    ∃ rest, Reads .expr ts [t] rest ∧ (current rest).kind = .eof := by
  unfold Tree.ofTokens at h
  split at h
  next => cases h
  next =>
    simp only [bind_eq_ok_iff, Prod.exists] at h
    obtain ⟨tree, rest, hexpr, h⟩ := h
    split at h
    next hrest =>
      cases h
      exact ⟨rest, (sound _).expr hexpr, hrest⟩
    next => cases h

end StringLambda.Parser
