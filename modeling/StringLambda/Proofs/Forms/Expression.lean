import StringLambda.Proofs.Forms

namespace StringLambda

open StringLambda.Parser

/-! Expressions as lambdas. A text that reads as an expression by itself is a lambda with the same
body, unless its first or its last token is taken for an operator that lacks an operand. -/

/-- What the tokens up to a seam wait for: an operand, the name of a member, or nothing. -/
inductive Seam where
  | open
  | dot
  | closed
deriving DecidableEq

namespace Seam

/-- The next seam. Operands do not stand side by side, and members only behind an operand; more of
the grammar is not told here. -/
def after : Seam → Kind → Option Seam
  | .dot, _ => some .closed
  | .open, .dot => none
  | .closed, .dot => some .dot
  | _, .rpar | _, .rsqb => some .closed
  | .open, k => if k.isLiteral || k == .ident then some .closed else some .open
  | .closed, k => if k.isLiteral || k == .ident then none else some .open

def walk : Seam → List Token → Option Seam
  | q, [] => some q
  | q, t :: ts => (q.after t.kind).bind (walk · ts)

@[simp] theorem walk_nil (q : Seam) : q.walk [] = some q := rfl

@[simp] theorem walk_cons (q : Seam) (t : Token) (ts : List Token) :
    q.walk (t :: ts) = (q.after t.kind).bind (walk · ts) := rfl

@[simp] theorem walk_append (q : Seam) (ls rs : List Token) :
    q.walk (ls ++ rs) = (q.walk ls).bind (walk · rs) := by
  induction ls generalizing q with
  | nil => rfl
  | cons l ls ih =>
      rw [List.cons_append, walk_cons, walk_cons, Option.bind_assoc]
      exact congrArg _ (funext ih)

theorem after_joins {t : Parser.Tier} {op : Token} {p : Position} {l r u : Tree}
    (h : Joins t op p l r u) : Seam.closed.after op.kind = some .open := by
  replace h := (joins_iff.mp h).1
  revert h
  cases t <;> cases op.kind <;> first | exact fun _ => rfl | exact nofun

theorem after_signs {op : Token} {text : String} (h : Signs op text) :
    Seam.open.after op.kind = some .open := by
  replace h := (signs_iff.mp h).1
  revert h
  cases op.kind <;> first | exact fun _ => rfl | exact nofun

theorem after_isLiteral {k : Kind} {l : LeafKind} (h : IsLiteral k l) :
    Seam.open.after k = some .closed := by
  cases h <;> rfl

theorem after_closing (q : Seam) {k : Kind} (hk : k = .rpar ∨ k = .rsqb) :
    q.after k = some .closed := by
  rcases hk with rfl | rfl <;> cases q <;> rfl

theorem eq_dot_of_after {q : Seam} {k : Kind} (hk : k.closesSection = true)
    (h : q.after k = some .closed) : q = .dot := by
  cases q with
  | dot => rfl
  | «open» | closed => cases k <;> first | exact absurd h (by decide) | cases hk

theorem eq_dot_of_after_eq_dot {q : Seam} {k : Kind} (h : q.after k = some .dot) : k = .dot := by
  cases q <;> cases k <;> first | rfl | cases h

theorem exists_dot_of_walk {ts : List Token} (h : Seam.open.walk ts = some .dot) :
    ∃ front dot, ts = front ++ [dot] ∧ dot.kind = .dot := by
  rcases List.eq_nil_or_concat ts with rfl | ⟨front, dot, rfl⟩
  · cases h
  · rw [List.concat_eq_append, walk_append, Option.bind_eq_some_iff] at h
    obtain ⟨q, -, hq⟩ := h
    rw [walk_cons, Option.bind_eq_some_iff] at hq
    obtain ⟨r, hr, hq⟩ := hq
    cases hq
    exact ⟨front, dot, List.concat_eq_append, eq_dot_of_after_eq_dot hr⟩

variable {q : Seam} {ls ts rs : List Token} {op left right : Token}

theorem walk_operator (hl : q.walk ls = some .closed) (hop : Seam.closed.after op.kind = some .open)
    (hr : Seam.open.walk rs = some r) : q.walk (ls ++ op :: rs) = some r := by
  simp only [walk_append, walk_cons, hl, hop, hr, Option.bind_some]

theorem walk_brackets (hleft : q.after left.kind = some .open)
    (hts : ∃ r, Seam.open.walk ts = some r)
    (hright : right.kind = .rpar ∨ right.kind = .rsqb) :
    q.walk (left :: (ts ++ right :: rs)) = Seam.closed.walk rs := by
  obtain ⟨r, hr⟩ := hts
  simp only [walk_append, walk_cons, hleft, hr, after_closing r hright, Option.bind_some]

end Seam

namespace Symbol

def before : Symbol → Seam
  | .steps => .closed
  | _ => .open

/-- Behind a phrase nothing is missing, apart from a list of items that is empty or ends with a
comma. -/
def IsWalked (s : Symbol) (ts : List Token) : Prop :=
  match s with
  | .items => ∃ q, Seam.open.walk ts = some q
  | s => s.before.walk ts = some .closed

theorem isWalked_operandOf {t : Parser.Tier} {ts : List Token} :
    (operandOf t).IsWalked ts ↔ Seam.open.walk ts = some .closed := by
  cases t <;> rfl

end Symbol

theorem Derives.isWalked {attached : Bool} {s : Symbol} {ts : List Token} {out : List Tree}
    (h : Derives attached s ts out) : s.IsWalked ts := by
  induction h with
  | unconditional _ ih | base _ ih | unsigned _ ih | bare _ ih => exact ih
  | operand _ ih => exact Symbol.isWalked_operandOf.mp ih
  | conditional _ hq _ ho _ ihc ihy ihn =>
      exact Seam.walk_operator ihc (by rw [hq]; rfl) (Seam.walk_operator ihy (by rw [ho]; rfl) ihn)
  | joined _ hop _ ihl ihr =>
      exact Seam.walk_operator ihl (Seam.after_joins hop) (Symbol.isWalked_operandOf.mp ihr)
  | raised _ hop _ ihb ihe => exact Seam.walk_operator ihb (by rw [hop]; rfl) ihe
  | signed hop _ ih =>
      show Seam.open.walk _ = some .closed
      rw [Seam.walk_cons, Seam.after_signs hop]
      exact ih
  | chain _ _ ihh ihs =>
      show Seam.open.walk _ = some .closed
      rw [Seam.walk_append, show Seam.open.walk _ = some .closed from ihh]
      exact ihs
  | literal hkind =>
      show Seam.open.walk _ = some .closed
      rw [Seam.walk_cons, Seam.after_isLiteral hkind]
      rfl
  | ident hkind =>
      show Seam.open.walk _ = some .closed
      rw [Seam.walk_cons, hkind]
      rfl
  | parenthesized hleft _ hright ih =>
      exact Seam.walk_brackets (by rw [hleft]; rfl) ⟨_, ih⟩ (.inl hright)
  | array hleft _ hright ih =>
      exact Seam.walk_brackets (by rw [hleft]; rfl) ih (.inr hright)
  | stepsEnd => rfl
  | field hdot _ _ _ ih =>
      show Seam.closed.walk _ = some .closed
      rw [Seam.walk_cons, hdot]
      exact ih
  | @method _ _ left _ _ _ _ _ hdot _ hleft _ hright _ iha ih =>
      show Seam.closed.walk _ = some .closed
      rw [Seam.walk_cons, hdot]
      have hstart : Seam.closed.after left.kind = some .open := by rw [hleft]; rfl
      exact (Seam.walk_brackets hstart iha (.inl hright)).trans ih
  | index hleft _ hright _ ihi ih =>
      exact (Seam.walk_brackets (by rw [hleft]; rfl) ⟨_, ihi⟩ (.inr hright)).trans ih
  | call hleft _ hright _ iha ih =>
      exact (Seam.walk_brackets (by rw [hleft]; rfl) iha (.inl hright)).trans ih
  | itemsEnd => exact ⟨.open, rfl⟩
  | lastItem _ ih => exact ⟨.closed, ih⟩
  | item _ hcomma _ ih ihs =>
      obtain ⟨q, hq⟩ := ihs
      exact ⟨q, Seam.walk_operator ih (by rw [hcomma]; rfl) hq⟩

namespace Derives

variable {attached : Bool} {s : Symbol} {ts : List Token} {out : List Tree} {t : Tree}

theorem exists_dot_of_closesSection {front : List Token} {last : Token}
    (h : Derives attached .expr (front ++ [last]) out)
    (hlast : last.kind.closesSection = true) :
    ∃ before dot, front = before ++ [dot] ∧ dot.kind = .dot := by
  have hwalk : Seam.open.walk (front ++ [last]) = some .closed := h.isWalked
  rw [Seam.walk_append, Option.bind_eq_some_iff] at hwalk
  obtain ⟨q, hfront, hq⟩ := hwalk
  rw [Seam.walk_cons, Option.bind_eq_some_iff] at hq
  obtain ⟨r, hr, hq⟩ := hq
  cases hq
  cases Seam.eq_dot_of_after hlast hr
  exact Seam.exists_dot_of_walk hfront

theorem not_concat_ident {x : Token} {out' : List Tree} (h : Derives attached .expr ts out)
    (hx : x.kind = .ident) : ¬ Derives attached .expr (ts ++ [x]) out' := by
  intro h'
  have hwalk : Seam.open.walk ts = some .closed := h.isWalked
  have hwhole : Seam.open.walk (ts ++ [x]) = some .closed := h'.isWalked
  rw [Seam.walk_append, hwalk, Option.bind_some, Seam.walk_cons, hx] at hwhole
  cases hwhole

theorem not_signs_of_postfixed {op : Token} {rest : List Token} {text : String}
    (h : Derives attached s (op :: rest) out) (hs : s = .primary ∨ s = .postfixed) :
    ¬ Signs op text := by
  intro hsigns
  generalize hts : op :: rest = ts at h
  induction h generalizing op rest with
  | bare _ ih => exact ih (.inl rfl) hsigns hts
  | chain dh _ ihh _ =>
      obtain ⟨first, others, rfl, -⟩ := dh.exists_cons rfl
      rw [List.cons_append, List.cons.injEq] at hts
      exact ihh (.inl rfl) hsigns (by rw [hts.1])
  | literal hliteral =>
      cases hts
      have hopen := Seam.after_isLiteral hliteral
      rw [Seam.after_signs hsigns] at hopen
      cases hopen
  | ident hkind | parenthesized hkind | array hkind =>
      cases hts
      cases hsigns <;> simp_all
  | _ => simp at hs

theorem exists_unsigned {op : Token} {rest : List Token} (h : Derives attached s (op :: rest) out)
    {text : String} (hop : Signs op text) (hs : s = .tier .product ∨ s = .power ∨ s = .unary) :
    ∃ u, Derives attached s rest [u] := by
  generalize hts : op :: rest = ts at h
  induction h generalizing rest with
  | @operand t _ _ _ ih =>
      obtain rfl : t = .product := by simpa using hs
      obtain ⟨u, d⟩ := ih (.inr (.inl rfl)) hts
      exact ⟨u, .operand d⟩
  | @joined t _ _ _ _ _ _ dl hop' dr ihl _ =>
      obtain rfl : t = .product := by simpa using hs
      obtain ⟨first, others, rfl, -⟩ := dl.exists_cons rfl
      cases hts
      obtain ⟨u, d⟩ := ihl (.inl rfl) rfl
      obtain ⟨v, hop'⟩ := hop'.exists_join _ _ _
      exact ⟨v, .joined d hop' dr⟩
  | base _ ih =>
      obtain ⟨u, d⟩ := ih (.inr (.inr rfl)) hts
      exact ⟨u, .base d⟩
  | raised db hop' de ihb _ =>
      obtain ⟨first, others, rfl, -⟩ := db.exists_cons rfl
      cases hts
      obtain ⟨u, d⟩ := ihb (.inr (.inr rfl)) rfl
      exact ⟨_, .raised d hop' de⟩
  | unsigned d _ =>
      subst hts
      exact absurd hop (d.not_signs_of_postfixed (.inr rfl))
  | signed _ d _ =>
      cases hts
      exact ⟨_, d⟩
  | _ => simp at hs

theorem exists_cons_ident {x op : Token} {rest : List Token}
    (h : Derives attached s (op :: rest) out) (hop : op.kind = .plus) (hx : x.kind = .ident)
    (hs : s = .expr ∨ ∃ t, s = .tier t ∧ t ≠ .product) :
    ∃ u, Derives attached s (x :: op :: rest) [u] := by
  generalize hts : op :: rest = ts at h
  induction h generalizing rest with
  | unconditional _ ih =>
      obtain ⟨u, d⟩ := ih (.inr ⟨_, rfl, by simp⟩) hts
      exact ⟨u, .unconditional d⟩
  | conditional dc hq dy ho dn ih _ _ =>
      obtain ⟨first, others, rfl, -⟩ := dc.exists_cons rfl
      cases hts
      obtain ⟨u, d⟩ := ih (.inr ⟨_, rfl, by simp⟩) rfl
      exact ⟨_, .conditional d hq dy ho dn⟩
  | @operand t _ _ d ih =>
      by_cases ht : t = .sum
      · -- The plus joins the new operand to what stands behind it, without its own sign.
        subst ht hts
        obtain ⟨u, du⟩ := d.exists_unsigned (.sign (by simp [hop])) (.inl rfl)
        have dx : Derives attached (.tier .sum) [x] [.leaf .ident x.text] :=
          .operand (.operand (.base (.unsigned (.bare (.ident hx)))))
        exact ⟨_, .joined dx (.sum (by simp [hop])) du⟩
      · have hproduct : t ≠ .product := by simpa using hs
        have htighter : ∃ t', Symbol.operandOf t = .tier t' ∧ t' ≠ .product := by
          cases t with
          | sum => exact absurd rfl ht
          | product => exact absurd rfl hproduct
          | _ => exact ⟨_, rfl, by simp⟩
        obtain ⟨u, du⟩ := ih (.inr htighter) hts
        exact ⟨u, .operand du⟩
  | joined dl hop' dr ihl _ =>
      obtain ⟨first, others, rfl, -⟩ := dl.exists_cons rfl
      cases hts
      obtain ⟨u, d⟩ := ihl hs rfl
      obtain ⟨v, hop'⟩ := hop'.exists_join _ _ _
      exact ⟨v, .joined d hop' dr⟩
  | _ => simp at hs

end Derives

namespace Lambda

/-- The last token is the name of a member, spelled as an operator that may end a section. -/
def EndsInOperatorName (ts : List Token) : Prop :=
  ∃ front dot name, ts = front ++ [dot, name] ∧ dot.kind = .dot ∧ name.kind.closesSection = true

variable {source : String} {ts : List Token} {p : Position} {t : Tree} {stop : Token}

theorem usesPlaceholder_concat (hstop : stop.kind = .eof) (afterDot : Bool) :
    usesPlaceholder afterDot (ts ++ [stop]) = usesPlaceholder afterDot ts := by
  induction ts generalizing afterDot with
  | nil => simp [usesPlaceholder, hstop]
  | cons t ts ih => simp only [List.cons_append, usesPlaceholder, ih]

theorem lacksRight_of_endsInOperatorName (h : EndsInOperatorName ts) : lacksRight ts = true := by
  obtain ⟨front, dot, name, rfl, -, hname⟩ := h
  simpa [lacksRight] using hname

theorem endsInOperatorName_of_lacksRight (d : Derives true .expr ts [t])
    (h : lacksRight ts = true) : EndsInOperatorName ts := by
  rcases List.eq_nil_or_concat ts with rfl | ⟨front, name, rfl⟩
  · cases h
  · rw [List.concat_eq_append] at d h ⊢
    rw [lacksRight, List.getLast?_concat] at h
    obtain ⟨before, dot, rfl, hdot⟩ := d.exists_dot_of_closesSection h
    exact ⟨before, dot, name, by simp, hdot, h⟩

theorem lacksRight_of_sectionParts? (hne : ts ≠ [])
    (h : sectionParts? (ts ++ [stop]) = none) : lacksRight ts = false := by
  obtain ⟨first, hfirst⟩ := Option.isSome_iff_exists.mp (List.isSome_head?.mpr hne)
  obtain ⟨last, hlast⟩ := Option.isSome_iff_exists.mp (List.getLast?_isSome.mpr hne)
  rw [lacksRight_eq hlast]
  simp only [sectionParts?, List.dropLast_concat, hfirst, hlast] at h
  split at h
  next hr => exact hr
  all_goals cases h

theorem kind_of_opensSection {k : Kind} (h : k.opensOperand = true) (h' : k.opensSection = true) :
    k = .plus := by
  cases k <;> first | rfl | exact absurd h (by decide) | exact absurd h' (by decide)

/-- An expression that is taken for a section gets an operand in front of its plus, which makes
another expression, or one behind its last token, which makes none. -/
theorem ofTokens_section {params : List String} {tokens : List Token}
    (d : Derives true .expr ts [t]) (heof : ∀ t ∈ ts, t.kind ≠ .eof)
    (hparts : sectionParts? (ts ++ [.stop p]) = some (params, tokens)) :
    (lacksRight ts = false ∧ (∃ sign rest, ts = sign :: rest ∧ sign.kind = .plus) ∧
      ∃ u, Tree.ofTokens tokens = .ok u) ∨
    (lacksRight ts = true ∧ ∀ u, Tree.ofTokens tokens ≠ .ok u) := by
  obtain ⟨first, last, hfirst, hlast, h⟩ := sectionParts?_cases hparts
  obtain ⟨sign, rest, rfl, hsign⟩ := d.exists_cons rfl
  obtain rfl : sign = first := by simpa using hfirst
  have hoperand : ∀ name op, (operand name op).kind ≠ .eof := fun name op => by simp [operand]
  have hbehind : ∀ {us : List Token} {u : Tree} name op, Derives true .expr us [u] →
      (∀ t ∈ us, t.kind ≠ .eof) →
        ∀ v, Tree.ofTokens (us ++ [operand name op] ++ [.stop p]) ≠ .ok v := by
    intro us u name op du hus v hv
    refine du.not_concat_ident (show (operand name op).kind = .ident from rfl)
      ((ofTokens_eq_ok_iff ?_ p v).mp hv)
    exact List.forall_mem_append.mpr ⟨hus, List.forall_mem_singleton.mpr (hoperand _ _)⟩
  rw [lacksRight_eq hlast]
  rcases h with ⟨hl, hr, -, rfl⟩ | ⟨-, hr, -, rfl⟩ | ⟨hl, hr, -, rfl⟩
  · have hplus := kind_of_opensSection hsign hl
    obtain ⟨u, du⟩ := d.exists_cons_ident hplus
      (show (operand leftName sign).kind = .ident from rfl) (.inl rfl)
    refine .inl ⟨hr, ⟨sign, rest, rfl, hplus⟩, u, (ofTokens_eq_ok_iff ?_ p u).mpr du⟩
    exact List.forall_mem_cons.mpr ⟨hoperand _ _, heof⟩
  · exact .inr ⟨hr, hbehind _ _ d heof⟩
  · obtain ⟨u, du⟩ := d.exists_cons_ident (kind_of_opensSection hsign hl)
      (show (operand leftName sign).kind = .ident from rfl) (.inl rfl)
    exact .inr ⟨hr, hbehind _ _ du (List.forall_mem_cons.mpr ⟨hoperand _ _, heof⟩)⟩

section

variable {bound : String → Bool} (hplain : PlainTokens source ts)
  (ht : Tree.ofTokens (ts ++ [.stop p]) = .ok t)
include hplain ht

theorem exists_compiles_iff :
    (∃ f, Compiles bound source (ts ++ [.stop p]) f) ↔
      usesPlaceholder false ts = true ∨ lacksRight ts = false := by
  have d := (ofTokens_eq_ok_iff hplain.eof p t).mp ht
  have hnone := hplain.arrow_stop p
  have hplace : usesPlaceholder false (ts ++ [.stop p]) = usesPlaceholder false ts :=
    usesPlaceholder_concat rfl false
  constructor
  · rintro ⟨f, hf⟩
    cases hf with
    | arrow hcut => exact absurd (cutAtArrows_of_none hnone ▸ rfl) hcut
    | placeholder _ hused _ => exact .inl (hplace ▸ hused)
    | «section» _ _ hparts hbody =>
        rcases ofTokens_section d hplain.eof hparts with ⟨h, -⟩ | ⟨-, h⟩
        · exact .inr h
        · exact absurd hbody (h _)
    | implicit _ _ hparts _ => exact .inr (lacksRight_of_sectionParts? (d.ne_nil rfl) hparts)
  · intro h
    cases hused : usesPlaceholder false ts with
    | true => exact ⟨_, .placeholder hnone (hplace.trans hused) ht⟩
    | false =>
        have hlast : lacksRight ts = false := by simpa [hused] using h
        cases hparts : sectionParts? (ts ++ [.stop p]) with
        | none => exact ⟨_, .implicit hnone (hplace.trans hused) hparts ht⟩
        | some parts =>
            rcases ofTokens_section d hplain.eof hparts with ⟨-, -, u, hu⟩ | ⟨h, -⟩
            · exact ⟨_, .section hnone (hplace.trans hused) hparts hu⟩
            · rw [hlast] at h
              cases h

theorem Compiles.body_eq {f : Lambda} (hf : Compiles bound source (ts ++ [.stop p]) f) :
    (f.form = .section ∧ ∃ sign rest, ts = sign :: rest ∧ sign.kind = .plus) ∨
      ((f.form = .placeholder ∨ f.form = .implicit) ∧ f.body = t) := by
  cases hf with
  | arrow hcut => exact absurd (cutAtArrows_of_none (hplain.arrow_stop p) ▸ rfl) hcut
  | placeholder _ _ hbody => exact .inr ⟨.inl rfl, Except.ok.inj (hbody.symm.trans ht)⟩
  | «section» _ _ hparts hbody =>
      have d := (ofTokens_eq_ok_iff hplain.eof p t).mp ht
      rcases ofTokens_section d hplain.eof hparts with ⟨-, h, -⟩ | ⟨-, h⟩
      · exact .inl ⟨rfl, h⟩
      · exact absurd hbody (h _)
  | implicit _ _ _ hbody => exact .inr ⟨.inr rfl, Except.ok.inj (hbody.symm.trans ht)⟩

end

/-- A text without arrows that reads as an expression is a lambda unless its last token is a member
name that is taken for an operator. The body is the expression, and only a plus in front of it is
taken for one that lacks its left operand. -/
theorem ofSource_of_expression (hts : tokenize source = .ok (ts ++ [.stop p]))
    (harrow : ∀ t ∈ ts, t.kind ≠ .arrow) (ht : Tree.ofSource source = .ok t)
    (bound : String → Bool) :
    ((∃ f, ofSource bound source = .ok f) ↔
      usesPlaceholder false ts = true ∨ ¬ EndsInOperatorName ts) ∧
    ∀ f, ofSource bound source = .ok f →
      (f.form = .section ∧ ∃ sign rest, ts = sign :: rest ∧ sign.kind = .plus) ∨
      ((f.form = .placeholder ∨ f.form = .implicit) ∧ f.body = t) := by
  have hplain := PlainTokens.of_tokenize hts harrow
  have ht : Tree.ofTokens (ts ++ [.stop p]) = .ok t := by
    simpa [Tree.ofSource, sourceTokens, hts, bind_eq_ok_iff, mapError_eq_ok_iff] using ht
  have d := (ofTokens_eq_ok_iff hplain.eof p t).mp ht
  have hcompiles : ∀ f, ofSource bound source = .ok f ↔
      Compiles bound source (ts ++ [.stop p]) f := by
    intro f
    simp [ofSource_eq_ok_iff, hts, ofTokens_eq_ok_iff_compiles, current_kind_of_ofTokens ht]
  have hright : EndsInOperatorName ts ↔ lacksRight ts = true :=
    ⟨lacksRight_of_endsInOperatorName, endsInOperatorName_of_lacksRight d⟩
  simp only [hcompiles, hright, Bool.not_eq_true]
  exact ⟨exists_compiles_iff hplain ht, fun f hf => hf.body_eq hplain ht⟩

/-- `x.in + 1` is a lambda with the member read in its body. -/
theorem ofSource_of_expression_in :
    ∃ f, ofSource (fun _ => false) "x.in + 1" = .ok f ∧ f.body = .node .add (some ⟨1, 1⟩)
      [.node .chain (some ⟨1, 1⟩) [.leaf .ident "x",
        .node .field (some ⟨1, 2⟩) [.leaf .name "in"]], .leaf .op "+", .leaf .number "1"] := by
  have hts : tokenize "x.in + 1" = .ok ([⟨.ident, "x", ⟨1, 1⟩⟩, ⟨.dot, ".", ⟨1, 2⟩⟩,
      ⟨.in, "in", ⟨1, 3⟩⟩, ⟨.plus, "+", ⟨1, 6⟩⟩, ⟨.number, "1", ⟨1, 8⟩⟩] ++ [.stop ⟨1, 9⟩]) := by
    rfl
  have ht : Tree.ofSource "x.in + 1" = .ok (.node .add (some ⟨1, 1⟩)
      [.node .chain (some ⟨1, 1⟩) [.leaf .ident "x",
        .node .field (some ⟨1, 2⟩) [.leaf .name "in"]], .leaf .op "+", .leaf .number "1"]) := by
    rw [Tree.ofSource, sourceTokens, hts]
    rfl
  have hlast : ¬ EndsInOperatorName [⟨.ident, "x", ⟨1, 1⟩⟩, ⟨.dot, ".", ⟨1, 2⟩⟩,
      ⟨.in, "in", ⟨1, 3⟩⟩, ⟨.plus, "+", ⟨1, 6⟩⟩, ⟨.number, "1", ⟨1, 8⟩⟩] := by
    intro h
    cases lacksRight_of_endsInOperatorName h
  obtain ⟨hiff, hform⟩ := ofSource_of_expression hts (by decide) ht fun _ => false
  obtain ⟨f, hf⟩ := hiff.mpr (.inr hlast)
  refine ⟨f, hf, ?_⟩
  rcases hform f hf with ⟨-, sign, rest, hcons, hsign⟩ | ⟨-, h⟩
  · cases hcons
    cases hsign
  · exact h

/-- `obj.in` reads as an expression and is no lambda under any names. -/
theorem ofSource_ne_ok_in :
    (∃ t, Tree.ofSource "obj.in" = .ok t) ∧
      (∀ ts, tokenize "obj.in" = .ok ts → ∀ t ∈ ts, t.kind ≠ .arrow) ∧
      ∀ bound f, ofSource bound "obj.in" ≠ .ok f := by
  have hts : tokenize "obj.in" = .ok [⟨.ident, "obj", ⟨1, 1⟩⟩, ⟨.dot, ".", ⟨1, 4⟩⟩,
      ⟨.in, "in", ⟨1, 5⟩⟩, .stop ⟨1, 7⟩] := by
    rfl
  refine ⟨?_, ?_, fun bound f h => ?_⟩
  · rw [Tree.ofSource, sourceTokens, hts]
    exact ⟨_, rfl⟩
  · intro ts h
    cases hts.symm.trans h
    decide
  · obtain ⟨ts, h, hf⟩ := ofSource_eq_ok_iff.mp h
    cases hts.symm.trans h
    cases hf

end Lambda

end StringLambda
