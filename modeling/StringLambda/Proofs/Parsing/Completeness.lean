import StringLambda.Tree.Grammar

namespace StringLambda

open StringLambda.Parser

/-! Every phrase of the grammar is read, up to its end and no further. -/

/-- How tightly a token binds what stands before it; zero, if it does not go on with it. -/
@[simp] def Kind.level : Kind → Nat
  | .qmark => 1
  | .nullish => 2
  | .or => 3
  | .and => 4
  | .eq | .neq | .seq | .sneq => 5
  | .lt | .lte | .gt | .gte | .in => 6
  | .plus | .minus => 7
  | .star | .slash | .mod => 8
  | .pow => 9
  | .dot | .lsqb | .lpar => 12
  | _ => 0

def Parser.Tier.level : Parser.Tier → Nat
  | .nullish => 2
  | .or => 3
  | .and => 4
  | .equality => 5
  | .relation => 6
  | .sum => 7
  | .product => 8

def Symbol.level : Symbol → Nat
  | .items => 0
  | .expr => 1
  | .tier t => t.level
  | .power => 9
  | .unary => 10
  | .postfixed => 11
  | .steps => 12
  | .primary => 13

theorem Symbol.level_operandOf (t : Parser.Tier) : (operandOf t).level = t.level + 1 := by
  cases t <;> rfl

theorem Symbol.level_tier (t : Parser.Tier) : (tier t).level = t.level := rfl

theorem Parser.Tier.level_of_operators {t : Parser.Tier} {k : Kind} (h : t.operators k = true) :
    k.level = t.level := by
  cases t <;> cases k <;> first | rfl | cases h

theorem Parser.Tier.level_bounds (t : Parser.Tier) : 2 ≤ t.level ∧ t.level ≤ 8 := by
  cases t <;> decide

def Stops (s : Symbol) (rest : List Token) : Prop :=
  (current rest).kind.level < s.level

def depthFor (s : Symbol) (ts : List Token) : Nat :=
  16 * ts.length + (14 - s.level)

/-- The descent reads a phrase where nothing goes on with it. A tier is read up to the loop over
its operators, which may find more of them. -/
def IsRead (ts : List Token) : Symbol → List Tree → Prop
  | .expr, [t] => ∀ rest n, Stops .expr rest → depthFor .expr ts ≤ n →
      expr n (ts ++ rest) = .ok (t, rest)
  | .tier tr, [t] => ∀ rest n, Stops (.operandOf tr) rest → depthFor (.tier tr) ts ≤ n →
      ∃ m, n ≤ m + 1 + ts.length ∧
        tier n tr (ts ++ rest) = tierTail m tr (placeOf ts) t rest
  | .power, [t] => ∀ rest n, Stops .power rest → depthFor .power ts ≤ n →
      power n (ts ++ rest) = .ok (t, rest)
  | .unary, [t] => ∀ rest n, Stops .unary rest → depthFor .unary ts ≤ n →
      unary n (ts ++ rest) = .ok (t, rest)
  | .postfixed, [t] => ∀ rest n, Stops .postfixed rest → depthFor .postfixed ts ≤ n →
      postfixed n (ts ++ rest) = .ok (t, rest)
  | .primary, [t] => ∀ rest n, depthFor .primary ts ≤ n →
      primary n (ts ++ rest) = .ok (t, rest)
  | .steps, out => ∀ rest n, Stops .steps rest → depthFor .steps ts ≤ n →
      stepsAfter n (ts ++ rest) = .ok (out, rest)
  | .items, out => ∀ close rest n, close = .rpar ∨ close = .rsqb → (current rest).kind = close →
      depthFor .items ts ≤ n → items n close (ts ++ rest) = .ok (out, rest)
  | _, _ => False

theorem exists_succ {s : Symbol} {ts : List Token} {n : Nat} (h : depthFor s ts ≤ n) :
    ∃ m, n = m + 1 := by
  have hs : s.level ≤ 13 := by
    cases s with
    | tier t => exact Nat.le_trans t.level_bounds.2 (by decide)
    | _ => decide
  exact ⟨n - 1, by unfold depthFor at h; omega⟩

namespace IsRead

variable {ts : List Token} {t : Tree}

theorem tier {tr : Tier} (h : IsRead ts (.tier tr) [t]) (rest : List Token) (n : Nat)
    (hstops : Stops (.tier tr) rest) (hn : depthFor (.tier tr) ts ≤ n) :
    Parser.tier n tr (ts ++ rest) = .ok (t, rest) := by
  have hlevel : (current rest).kind.level < tr.level := hstops
  obtain ⟨m, hm, htier⟩ := h rest n (by
    unfold Stops
    rw [Symbol.level_operandOf]
    omega) hn
  have hbounds := tr.level_bounds
  obtain ⟨m, rfl⟩ : ∃ k, m = k + 1 := ⟨m - 1, by
    simp only [depthFor, Symbol.level_tier] at hn
    omega⟩
  rw [htier, tierTail_succ]
  cases hop : tr.operators (current rest).kind with
  | false => simp
  | true => exact absurd (Tier.level_of_operators hop) (Nat.ne_of_lt hlevel)

theorem operand {tr : Tier} (h : IsRead ts (.operandOf tr) [t]) (rest : List Token) (n : Nat)
    (hstops : Stops (.operandOf tr) rest) (hn : depthFor (.operandOf tr) ts ≤ n) :
    Parser.operand n tr (ts ++ rest) = .ok (t, rest) := by
  cases tr with
  | product => exact h rest n hstops hn
  | _ => exact tier h rest n hstops hn

end IsRead

theorem placeOf_current {ts : List Token} (h : ts ≠ []) (rest : List Token) :
    (current (ts ++ rest)).place = placeOf ts :=
  placeOf_append h rest

namespace IsRead

variable {ts : List Token} {t : Tree}

theorem unconditional (h : IsRead ts (.tier .nullish) [t]) : IsRead ts .expr [t] := by
  intro rest n hstops hn
  obtain ⟨n, rfl⟩ := exists_succ hn
  have hlevel : (current rest).kind.level < 1 := hstops
  have hq : (current rest).kind ≠ .qmark := by
    intro hq
    simp [hq] at hlevel
  have htier := h.tier rest n (Nat.lt_trans hlevel (by decide)) (by
    simp only [depthFor, Symbol.level, Tier.level] at hn ⊢
    omega)
  simp [Parser.expr, htier, hq, bind, Except.bind, pure, Except.pure]

theorem conditional {cs ys ns : List Token} {q o : Token} {c y e : Tree}
    (hc : IsRead cs (.tier .nullish) [c]) (hcs : cs ≠ []) (hq : q.kind = .qmark)
    (hy : IsRead ys .expr [y]) (ho : o.kind = .colon) (he : IsRead ns .expr [e]) :
    IsRead (cs ++ q :: (ys ++ o :: ns)) .expr
      [.node .ternary (some (placeOf cs)) [c, y, e]] := by
  intro rest n hstops hn
  obtain ⟨n, rfl⟩ := exists_succ hn
  simp only [depthFor, Symbol.level, List.length_append, List.length_cons] at hn
  have hcond := hc.tier (q :: (ys ++ o :: (ns ++ rest))) n
    (by simp [Stops, hq, Symbol.level, Tier.level])
    (by simp only [depthFor, Symbol.level, Tier.level]; omega)
  have hyes := hy (o :: (ns ++ rest)) n (by simp [Stops, ho, Symbol.level])
    (by simp only [depthFor, Symbol.level]; omega)
  have hno := he rest n hstops (by simp only [depthFor, Symbol.level]; omega)
  simp [Parser.expr, hcond, hyes, hno, hq, ho, expect, placeOf_current hcs, bind, Except.bind, pure,
    Except.pure]

theorem ofOperand {tr : Tier} (h : IsRead ts (.operandOf tr) [t]) (hts : ts ≠ []) :
    IsRead ts (.tier tr) [t] := by
  intro rest n hstops hn
  obtain ⟨n, rfl⟩ := exists_succ hn
  have hbounds := tr.level_bounds
  have hread := h.operand rest n hstops (by
    simp only [depthFor, Symbol.level_operandOf, Symbol.level_tier] at hn ⊢
    omega)
  refine ⟨n, by omega, ?_⟩
  simp [tier_succ, hread, placeOf_current hts, bind, Except.bind]

theorem joined {tr : Tier} {ls rs : List Token} {op : Token} {l r : Tree}
    (hl : IsRead ls (.tier tr) [l]) (hls : ls ≠ []) (hop : tr.operators op.kind = true)
    (hr : IsRead rs (.operandOf tr) [r]) :
    IsRead (ls ++ op :: rs) (.tier tr) [tr.join (placeOf ls) l op r] := by
  intro rest n hstops hn
  have hbounds := tr.level_bounds
  simp only [depthFor, Symbol.level_tier, List.length_append, List.length_cons] at hn
  obtain ⟨m, hm, hleft⟩ := hl (op :: (rs ++ rest)) n
    (by
      simp only [Stops, current_cons, Tier.level_of_operators hop, Symbol.level_operandOf]
      omega)
    (by simp only [depthFor, Symbol.level_tier]; omega)
  obtain ⟨m, rfl⟩ : ∃ k, m = k + 1 := ⟨m - 1, by omega⟩
  have hright := hr.operand rest m hstops (by
    simp only [depthFor, Symbol.level_operandOf]
    omega)
  refine ⟨m, by simp only [List.length_append, List.length_cons]; omega, ?_⟩
  calc
    Parser.tier n tr (ls ++ op :: rs ++ rest)
      = tierTail (m + 1) tr (placeOf ls) l (op :: (rs ++ rest)) := by simpa using hleft
    _ = tierTail m tr (placeOf ls) (tr.join (placeOf ls) l op r) rest := by
        simp [tierTail_succ, hop, hright, bind, Except.bind]
    _ = _ := by rw [placeOf_append hls]

theorem base (h : IsRead ts .unary [t]) : IsRead ts .power [t] := by
  intro rest n hstops hn
  obtain ⟨n, rfl⟩ := exists_succ hn
  have hlevel : (current rest).kind.level < 9 := hstops
  have hpow : (current rest).kind ≠ .pow := by
    intro hpow
    simp [hpow] at hlevel
  have hunary := h rest n (Nat.lt_trans hlevel (by decide)) (by
    simp only [depthFor, Symbol.level] at hn ⊢
    omega)
  simp [Parser.power, hunary, hpow, bind, Except.bind, pure, Except.pure]

theorem raised {bs es : List Token} {op : Token} {b e : Tree} (hb : IsRead bs .unary [b])
    (hbs : bs ≠ []) (hop : op.kind = .pow) (he : IsRead es .power [e]) :
    IsRead (bs ++ op :: es) .power [.node .pow (some (placeOf bs)) [b, .leaf .op "**", e]] := by
  intro rest n hstops hn
  obtain ⟨n, rfl⟩ := exists_succ hn
  simp only [depthFor, Symbol.level, List.length_append, List.length_cons] at hn
  have hbase := hb (op :: (es ++ rest)) n (by simp [Stops, hop, Symbol.level])
    (by simp only [depthFor, Symbol.level]; omega)
  have hexponent := he rest n hstops (by simp only [depthFor, Symbol.level]; omega)
  simp [Parser.power, hbase, hexponent, hop, placeOf_current hbs, bind, Except.bind, pure,
    Except.pure]

theorem unsigned (h : IsRead ts .postfixed [t]) {first : Token} {others : List Token}
    (hts : ts = first :: others) (hsign : isSign first.kind = false) : IsRead ts .unary [t] := by
  intro rest n hstops hn
  obtain ⟨n, rfl⟩ := exists_succ hn
  have hpostfixed := h rest n (Nat.lt_trans hstops (by decide)) (by
    simp only [depthFor, Symbol.level] at hn ⊢
    omega)
  subst hts
  simpa [Parser.unary, hsign] using hpostfixed

theorem signed {op : Token} (hop : isSign op.kind = true) (h : IsRead ts .unary [t]) :
    IsRead (op :: ts) .unary [.node .unary (some op.place) [.leaf .op (signText op), t]] := by
  intro rest n hstops hn
  obtain ⟨n, rfl⟩ := exists_succ hn
  simp only [depthFor, Symbol.level, List.length_cons] at hn
  have hoperand := h rest n hstops (by simp only [depthFor, Symbol.level]; omega)
  simp [Parser.unary, hop, hoperand, bind, Except.bind, pure, Except.pure]

theorem chain {hs ss : List Token} {h : Tree} {steps : List Tree} (hh : IsRead hs .primary [h])
    (hhs : hs ≠ []) (hsteps : IsRead ss .steps steps) :
    IsRead (hs ++ ss) .postfixed
      [if steps.isEmpty then h else .node .chain (some (placeOf hs)) (h :: steps)] := by
  intro rest n hstops hn
  obtain ⟨n, rfl⟩ := exists_succ hn
  simp only [depthFor, Symbol.level, List.length_append] at hn
  have hlength := List.length_pos_iff.mpr hhs
  have hhead := hh (ss ++ rest) n (by simp only [depthFor, Symbol.level]; omega)
  have hrest := hsteps rest n (Nat.lt_trans hstops (by decide))
    (by simp only [depthFor, Symbol.level]; omega)
  cases steps <;>
    simp [Parser.postfixed, hhead, hrest, placeOf_current hhs, bind, Except.bind, pure, Except.pure]

theorem literal {token : Token} (h : token.kind.isLiteral = true) :
    IsRead [token] .primary [.leaf (literalKind token.kind) token.text] := by
  intro rest n hn
  obtain ⟨n, rfl⟩ := exists_succ hn
  simp [Parser.primary, h, pure, Except.pure]

theorem ident {token : Token} (h : token.kind = .ident) :
    IsRead [token] .primary [.leaf .ident token.text] := by
  intro rest n hn
  obtain ⟨n, rfl⟩ := exists_succ hn
  simp [Parser.primary, h, Kind.isLiteral, pure, Except.pure]

theorem parenthesized {left right : Token} (hleft : left.kind = .lpar) (h : IsRead ts .expr [t])
    (hright : right.kind = .rpar) : IsRead (left :: (ts ++ [right])) .primary [t] := by
  intro rest n hn
  obtain ⟨n, rfl⟩ := exists_succ hn
  simp only [depthFor, Symbol.level, List.length_cons, List.length_append] at hn
  have hinner := h (right :: rest) n (by simp [Stops, hright, Symbol.level])
    (by simp only [depthFor, Symbol.level]; omega)
  simp [Parser.primary, hleft, hright, hinner, Kind.isLiteral, expect, bind, Except.bind, pure,
    Except.pure]

theorem array {left right : Token} {elements : List Tree} (hleft : left.kind = .lsqb)
    (h : IsRead ts .items elements) (hright : right.kind = .rsqb) :
    IsRead (left :: (ts ++ [right])) .primary [.node .array (some left.place) elements] := by
  intro rest n hn
  obtain ⟨n, rfl⟩ := exists_succ hn
  simp only [depthFor, Symbol.level, List.length_cons, List.length_append] at hn
  have hinner := h .rsqb (right :: rest) n (.inr rfl) hright
    (by simp only [depthFor, Symbol.level]; omega)
  simp [Parser.primary, hleft, hright, hinner, Kind.isLiteral, expect, bind, Except.bind, pure,
    Except.pure]

theorem stepsEnd : IsRead [] .steps [] := by
  intro rest n hstops hn
  obtain ⟨n, rfl⟩ := exists_succ hn
  have hlevel : (current rest).kind.level < 12 := hstops
  simp only [List.nil_append, Parser.stepsAfter]
  split
  next hdot => simp [hdot] at hlevel
  next hleft => simp [hleft] at hlevel
  next hleft => simp [hleft] at hlevel
  next => rfl

theorem field {dot name : Token} {ss : List Token} {steps : List Tree} (hdot : dot.kind = .dot)
    (hname : isMemberName name = true) (h : IsRead ss .steps steps)
    (hnext : (current ss).kind ≠ .lpar) :
    IsRead (dot :: name :: ss) .steps
      (.node .field (some dot.place) [.leaf .name name.text] :: steps) := by
  intro rest n hstops hn
  obtain ⟨n, rfl⟩ := exists_succ hn
  simp only [depthFor, Symbol.level, List.length_cons] at hn
  have hlevel : (current rest).kind.level < 12 := hstops
  have hleft : (current (ss ++ rest)).kind ≠ .lpar := by
    cases ss with
    | nil =>
        intro hleft
        simp only [List.nil_append] at hleft
        simp [hleft] at hlevel
    | cons s ss => exact hnext
  have hsteps := h rest n hstops (by simp only [depthFor, Symbol.level]; omega)
  simp [Parser.stepsAfter, hdot, hname, hleft, hsteps, bind, Except.bind, pure, Except.pure]

theorem method {dot name left right : Token} {ss : List Token} {args steps : List Tree}
    (hdot : dot.kind = .dot) (hname : isMemberName name = true) (hleft : left.kind = .lpar)
    (hargs : IsRead ts .items args) (hright : right.kind = .rpar) (h : IsRead ss .steps steps) :
    IsRead (dot :: name :: left :: (ts ++ right :: ss)) .steps
      (.node .method (some dot.place)
        [.leaf .name name.text, .node .args (some dot.place) args] :: steps) := by
  intro rest n hstops hn
  obtain ⟨n, rfl⟩ := exists_succ hn
  simp only [depthFor, Symbol.level, List.length_cons, List.length_append] at hn
  have hitems := hargs .rpar (right :: (ss ++ rest)) n (.inl rfl) hright
    (by simp only [depthFor, Symbol.level]; omega)
  have hsteps := h rest n hstops (by simp only [depthFor, Symbol.level]; omega)
  simp [Parser.stepsAfter, hdot, hname, hleft, hright, hitems, hsteps, expect, bind, Except.bind,
    pure, Except.pure]

theorem index {left right : Token} {ss : List Token} {i : Tree} {steps : List Tree}
    (hleft : left.kind = .lsqb) (hi : IsRead ts .expr [i]) (hright : right.kind = .rsqb)
    (h : IsRead ss .steps steps) :
    IsRead (left :: (ts ++ right :: ss)) .steps
      (.node .index (some left.place) [i] :: steps) := by
  intro rest n hstops hn
  obtain ⟨n, rfl⟩ := exists_succ hn
  simp only [depthFor, Symbol.level, List.length_cons, List.length_append] at hn
  have hindex := hi (right :: (ss ++ rest)) n (by simp [Stops, hright, Symbol.level])
    (by simp only [depthFor, Symbol.level]; omega)
  have hsteps := h rest n hstops (by simp only [depthFor, Symbol.level]; omega)
  simp [Parser.stepsAfter, hleft, hright, hindex, hsteps, expect, bind, Except.bind, pure,
    Except.pure]

theorem call {left right : Token} {ss : List Token} {args steps : List Tree}
    (hleft : left.kind = .lpar) (hargs : IsRead ts .items args) (hright : right.kind = .rpar)
    (h : IsRead ss .steps steps) :
    IsRead (left :: (ts ++ right :: ss)) .steps
      (.node .call (some left.place) [.node .args (some left.place) args] :: steps) := by
  intro rest n hstops hn
  obtain ⟨n, rfl⟩ := exists_succ hn
  simp only [depthFor, Symbol.level, List.length_cons, List.length_append] at hn
  have hitems := hargs .rpar (right :: (ss ++ rest)) n (.inl rfl) hright
    (by simp only [depthFor, Symbol.level]; omega)
  have hsteps := h rest n hstops (by simp only [depthFor, Symbol.level]; omega)
  simp [Parser.stepsAfter, hleft, hright, hitems, hsteps, expect, bind, Except.bind, pure,
    Except.pure]

theorem itemsEnd : IsRead [] .items [] := by
  intro close rest n _ hrest hn
  obtain ⟨n, rfl⟩ := exists_succ hn
  simp [Parser.items, hrest, pure, Except.pure]

theorem not_itemsEnd {first : Token} {close : Kind} (hfirst : first.kind.opensOperand = true)
    (hclose : close = .rpar ∨ close = .rsqb) : ¬ (first.kind = close ∨ first.kind = .eof) := by
  rintro (h | h)
  · rcases hclose with rfl | rfl <;> rw [h] at hfirst <;> cases hfirst
  · rw [h] at hfirst
    cases hfirst

theorem lastItem (h : IsRead ts .expr [t]) {first : Token} {others : List Token}
    (hts : ts = first :: others) (hfirst : first.kind.opensOperand = true) :
    IsRead ts .items [t] := by
  intro close rest n hclose hafter hn
  obtain ⟨n, rfl⟩ := exists_succ hn
  simp only [depthFor, Symbol.level] at hn
  have hlevel : (current rest).kind.level = 0 := by
    rcases hclose with rfl | rfl <;> rw [hafter] <;> rfl
  have hitem := h rest n (by rw [Stops, hlevel]; decide)
    (by simp only [depthFor, Symbol.level]; omega)
  have hcomma : (current rest).kind ≠ .comma := by
    rcases hclose with rfl | rfl <;> simp [hafter]
  have hgoes : ¬ ((current (ts ++ rest)).kind = close ∨ (current (ts ++ rest)).kind = .eof) := by
    rw [hts]
    exact not_itemsEnd hfirst hclose
  simp [Parser.items, hgoes, hitem, hcomma, bind, Except.bind, pure, Except.pure]

theorem item {rs : List Token} {comma first : Token} {others : List Token} {rest : List Tree}
    (h : IsRead ts .expr [t]) (hts : ts = first :: others)
    (hfirst : first.kind.opensOperand = true) (hcomma : comma.kind = .comma)
    (hrest : IsRead rs .items rest) : IsRead (ts ++ comma :: rs) .items (t :: rest) := by
  intro close after n hclose hafter hn
  obtain ⟨n, rfl⟩ := exists_succ hn
  simp only [depthFor, Symbol.level, List.length_cons, List.length_append] at hn
  have hitem := h (comma :: (rs ++ after)) n (by simp [Stops, hcomma, Symbol.level])
    (by simp only [depthFor, Symbol.level]; omega)
  have hitems := hrest close after n hclose hafter (by simp only [depthFor, Symbol.level]; omega)
  have hgoes : ¬ ((current (ts ++ comma :: (rs ++ after))).kind = close ∨
      (current (ts ++ comma :: (rs ++ after))).kind = .eof) := by
    rw [hts]
    exact not_itemsEnd hfirst hclose
  simp [Parser.items, hgoes, hitem, hitems, hcomma, bind, Except.bind, pure, Except.pure]

end IsRead

namespace Derives

variable {ts : List Token} {t : Tree}

theorem not_sign (h : Derives true .postfixed ts [t]) :
    ∃ first others, ts = first :: others ∧ isSign first.kind = false := by
  have hprimary : ∀ {hs : List Token} {u : Tree}, Derives true .primary hs [u] →
      ∃ first others, hs = first :: others ∧ isSign first.kind = false := by
    intro hs u d
    cases d with
    | @literal token _ hliteral =>
        refine ⟨token, [], rfl, ?_⟩
        generalize token.kind = k at hliteral
        cases hliteral <;> rfl
    | @ident token hkind => exact ⟨token, [], rfl, by rw [hkind]; rfl⟩
    | parenthesized hleft => exact ⟨_, _, rfl, by rw [hleft]; rfl⟩
    | array hleft => exact ⟨_, _, rfl, by rw [hleft]; rfl⟩
  cases h with
  | bare d => exact hprimary d
  | chain d _ =>
      obtain ⟨first, others, rfl, hfirst⟩ := hprimary d
      exact ⟨first, _, rfl, hfirst⟩

theorem isRead {s : Symbol} {out : List Tree} (h : Derives true s ts out) : IsRead ts s out := by
  induction h with
  | unconditional _ ih => exact ih.unconditional
  | conditional dc hq _ ho _ ihc ihy ihn => exact ihc.conditional (dc.ne_nil rfl) hq ihy ho ihn
  | @operand t _ _ d ih => exact ih.ofOperand (d.ne_nil (Symbol.mayBeEmpty_operandOf t))
  | joined dl hjoins _ ihl ihr =>
      obtain ⟨hop, rfl⟩ := joins_iff.mp hjoins
      exact ihl.joined (dl.ne_nil rfl) hop ihr
  | base _ ih => exact ih.base
  | raised db hop _ ihb ihe => exact ihb.raised (db.ne_nil rfl) hop ihe
  | unsigned d ih =>
      obtain ⟨first, others, hts, hsign⟩ := d.not_sign
      exact ih.unsigned hts hsign
  | signed hsigns _ ih =>
      obtain ⟨hop, rfl⟩ := signs_iff.mp hsigns
      exact .signed hop ih
  | bare d ih => simpa using ih.chain (d.ne_nil rfl) .stepsEnd
  | chain dh _ ihh ihs => simpa using ihh.chain (dh.ne_nil rfl) ihs
  | literal hkind =>
      obtain ⟨hliteral, rfl⟩ := isLiteral_iff.mp hkind
      exact .literal hliteral
  | ident hkind => exact .ident hkind
  | parenthesized hleft _ hright ih => exact .parenthesized hleft ih hright
  | array hleft _ hright ih => exact .array hleft ih hright
  | stepsEnd => exact .stepsEnd
  | field hdot hname _ hnext ih => exact .field hdot (namesMember_iff.mp hname) ih (hnext rfl)
  | method hdot hname hleft _ hright _ iha ih =>
      exact .method hdot (namesMember_iff.mp hname) hleft iha hright ih
  | index hleft _ hright _ ihi ih => exact .index hleft ihi hright ih
  | call hleft _ hright _ iha ih => exact .call hleft iha hright ih
  | itemsEnd => exact .itemsEnd
  | lastItem d ih =>
      obtain ⟨first, others, hts, hfirst⟩ := d.exists_cons rfl
      exact ih.lastItem hts hfirst
  | item d hcomma _ ih ihs =>
      obtain ⟨first, others, hts, hfirst⟩ := d.exists_cons rfl
      exact ih.item hts hfirst hcomma ihs

end Derives

end StringLambda
