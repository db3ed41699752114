import StringLambda.Proofs.Parsing.Completeness
import StringLambda.Proofs.Parsing.Soundness

namespace StringLambda

open StringLambda.Parser

/-! The trees of token lists are those of the grammar. -/

/-- A token that may stand in a phrase: an end token only as a name. -/
def Token.mayStand (t : Token) : Prop :=
  t.kind ≠ .eof ∨ t.NamesMember

namespace Token

theorem mayStand_of_kind {t : Token} {k : Kind} (h : t.kind = k) (hk : k ≠ .eof) : t.mayStand :=
  .inl (h ▸ hk)

theorem mayStand_of_joins {op : Token} {tr : Parser.Tier} {p : Position} {l r u : Tree}
    (h : Joins tr op p l r u) : op.mayStand := by
  refine .inl fun heof => ?_
  cases h <;> simp_all

theorem mayStand_of_signs {op : Token} {text : String} (h : Signs op text) : op.mayStand := by
  refine .inl fun heof => ?_
  cases h <;> simp_all

theorem mayStand_of_isLiteral {t : Token} {kind : LeafKind} (h : IsLiteral t.kind kind) :
    t.mayStand := by
  refine .inl fun heof => ?_
  rw [heof] at h
  cases h

theorem not_mayStand_stop (p : Position) : ¬ (stop p).mayStand := by
  rintro (h | h | ⟨c, cs, htext, -⟩)
  · exact h rfl
  · cases h
  · cases htext

end Token

namespace Derives

variable {attached : Bool} {s : Symbol} {ts : List Token} {out : List Tree}

theorem mayStand (h : Derives attached s ts out) : ∀ t ∈ ts, t.mayStand := by
  induction h with
  | stepsEnd | itemsEnd => simp
  | unconditional _ ih | operand _ ih | base _ ih | unsigned _ ih | bare _ ih | lastItem _ ih =>
      exact ih
  | conditional _ hq _ ho _ ihc ihy ihn =>
      simp only [List.forall_mem_append, List.forall_mem_cons]
      exact ⟨ihc, Token.mayStand_of_kind hq (by simp), ihy,
        Token.mayStand_of_kind ho (by simp), ihn⟩
  | joined _ hop _ ihl ihr =>
      simp only [List.forall_mem_append, List.forall_mem_cons]
      exact ⟨ihl, Token.mayStand_of_joins hop, ihr⟩
  | raised _ hop _ ihb ihe =>
      simp only [List.forall_mem_append, List.forall_mem_cons]
      exact ⟨ihb, Token.mayStand_of_kind hop (by simp), ihe⟩
  | signed hop _ ih => exact List.forall_mem_cons.mpr ⟨Token.mayStand_of_signs hop, ih⟩
  | chain _ _ ihh ihs => exact List.forall_mem_append.mpr ⟨ihh, ihs⟩
  | literal hkind => simpa using Token.mayStand_of_isLiteral hkind
  | ident hkind => simpa using Token.mayStand_of_kind hkind (by simp)
  | parenthesized hleft _ hright ih | array hleft _ hright ih =>
      simp only [List.forall_mem_append, List.forall_mem_cons]
      exact ⟨Token.mayStand_of_kind hleft (by simp), ih,
        Token.mayStand_of_kind hright (by simp), by simp⟩
  | field hdot hname _ _ ih =>
      simp only [List.forall_mem_cons]
      exact ⟨Token.mayStand_of_kind hdot (by simp), .inr hname, ih⟩
  | method hdot hname hleft _ hright _ iha ih =>
      simp only [List.forall_mem_append, List.forall_mem_cons]
      exact ⟨Token.mayStand_of_kind hdot (by simp), .inr hname,
        Token.mayStand_of_kind hleft (by simp), iha, Token.mayStand_of_kind hright (by simp), ih⟩
  | index hleft _ hright _ ihi ih | call hleft _ hright _ ihi ih =>
      simp only [List.forall_mem_append, List.forall_mem_cons]
      exact ⟨Token.mayStand_of_kind hleft (by simp), ihi,
        Token.mayStand_of_kind hright (by simp), ih⟩
  | item _ hcomma _ ih ihs =>
      simp only [List.forall_mem_append, List.forall_mem_cons]
      exact ⟨ih, Token.mayStand_of_kind hcomma (by simp), ihs⟩

theorem method_of_call {dot name : Token} {rest : List Tree} (hdot : dot.kind = .dot)
    (hname : name.NamesMember) (h : Derives true .steps ts rest)
    (hleft : (current ts).kind = .lpar) : ∃ out, Derives true .steps (dot :: name :: ts) out := by
  cases h with
  | stepsEnd => cases hleft
  | field hother => simp [hother] at hleft
  | method hother => simp [hother] at hleft
  | index hother => simp [hother] at hleft
  | call hleft da hright ds => exact ⟨_, .method hdot hname hleft da hright ds⟩

theorem exists_singleton (h : Derives attached s ts out) (hs : s.mayBeEmpty = false) :
    ∃ t, out = [t] := by
  cases h <;> first | exact ⟨_, rfl⟩ | cases hs

theorem exists_one (h : ∃ out, Derives attached s ts out) (hs : s.mayBeEmpty = false) :
    ∃ t, Derives attached s ts [t] := by
  obtain ⟨_, d⟩ := h
  obtain ⟨t, rfl⟩ := d.exists_singleton hs
  exact ⟨t, d⟩

theorem attach (h : Derives attached s ts out) : ∃ out', Derives true s ts out' := by
  induction h with
  | unconditional _ ih =>
      obtain ⟨_, d⟩ := exists_one ih rfl
      exact ⟨_, .unconditional d⟩
  | conditional _ hq _ ho _ ihc ihy ihn =>
      obtain ⟨_, dc⟩ := exists_one ihc rfl
      obtain ⟨_, dy⟩ := exists_one ihy rfl
      obtain ⟨_, dn⟩ := exists_one ihn rfl
      exact ⟨_, .conditional dc hq dy ho dn⟩
  | @operand t _ _ _ ih =>
      obtain ⟨_, d⟩ := exists_one ih (Symbol.mayBeEmpty_operandOf t)
      exact ⟨_, .operand d⟩
  | @joined t _ _ _ _ _ _ _ hop _ ihl ihr =>
      obtain ⟨_, dl⟩ := exists_one ihl rfl
      obtain ⟨_, dr⟩ := exists_one ihr (Symbol.mayBeEmpty_operandOf t)
      obtain ⟨_, hop⟩ := hop.exists_join _ _ _
      exact ⟨_, .joined dl hop dr⟩
  | base _ ih =>
      obtain ⟨_, d⟩ := exists_one ih rfl
      exact ⟨_, .base d⟩
  | raised _ hop _ ihb ihe =>
      obtain ⟨_, db⟩ := exists_one ihb rfl
      obtain ⟨_, de⟩ := exists_one ihe rfl
      exact ⟨_, .raised db hop de⟩
  | unsigned _ ih =>
      obtain ⟨_, d⟩ := exists_one ih rfl
      exact ⟨_, .unsigned d⟩
  | signed hop _ ih =>
      obtain ⟨_, d⟩ := exists_one ih rfl
      exact ⟨_, .signed hop d⟩
  | bare _ ih =>
      obtain ⟨_, d⟩ := exists_one ih rfl
      exact ⟨_, .bare d⟩
  | @chain hs ss _ _ _ _ _ ihh ihs =>
      obtain ⟨_, dh⟩ := exists_one ihh rfl
      obtain ⟨steps, ds⟩ := ihs
      cases steps with
      | nil =>
          cases ds
          exact ⟨_, by simpa using Derives.bare dh⟩
      | cons s rest => exact ⟨_, .chain dh ds⟩
  | literal hkind => exact ⟨_, .literal hkind⟩
  | ident hkind => exact ⟨_, .ident hkind⟩
  | parenthesized hleft _ hright ih =>
      obtain ⟨_, d⟩ := exists_one ih rfl
      exact ⟨_, .parenthesized hleft d hright⟩
  | array hleft _ hright ih =>
      obtain ⟨_, d⟩ := ih
      exact ⟨_, .array hleft d hright⟩
  | stepsEnd => exact ⟨_, .stepsEnd⟩
  | @field _ _ ss _ hdot hname _ _ ih =>
      obtain ⟨_, d⟩ := ih
      by_cases hleft : (current ss).kind = .lpar
      · exact d.method_of_call hdot hname hleft
      · exact ⟨_, .field hdot hname d fun _ => hleft⟩
  | method hdot hname hleft _ hright _ iha ih =>
      obtain ⟨_, da⟩ := iha
      obtain ⟨_, d⟩ := ih
      exact ⟨_, .method hdot hname hleft da hright d⟩
  | index hleft _ hright _ ihi ih =>
      obtain ⟨_, di⟩ := exists_one ihi rfl
      obtain ⟨_, d⟩ := ih
      exact ⟨_, .index hleft di hright d⟩
  | call hleft _ hright _ iha ih =>
      obtain ⟨_, da⟩ := iha
      obtain ⟨_, d⟩ := ih
      exact ⟨_, .call hleft da hright d⟩
  | itemsEnd => exact ⟨_, .itemsEnd⟩
  | lastItem _ ih =>
      obtain ⟨_, d⟩ := exists_one ih rfl
      exact ⟨_, .lastItem d⟩
  | item _ hcomma _ ih ihs =>
      obtain ⟨_, d⟩ := exists_one ih rfl
      obtain ⟨_, ds⟩ := ihs
      exact ⟨_, .item d hcomma ds⟩

/-- Whether arguments have to belong to the name before them makes no other phrases. -/
theorem detach (h : Derives true s ts out) : Derives false s ts out := by
  induction h with
  | unconditional _ ih => exact .unconditional ih
  | conditional _ hq _ ho _ ihc ihy ihn => exact .conditional ihc hq ihy ho ihn
  | operand _ ih => exact .operand ih
  | joined _ hop _ ihl ihr => exact .joined ihl hop ihr
  | base _ ih => exact .base ih
  | raised _ hop _ ihb ihe => exact .raised ihb hop ihe
  | unsigned _ ih => exact .unsigned ih
  | signed hop _ ih => exact .signed hop ih
  | bare _ ih => exact .bare ih
  | chain _ _ ihh ihs => exact .chain ihh ihs
  | literal hkind => exact .literal hkind
  | ident hkind => exact .ident hkind
  | parenthesized hleft _ hright ih => exact .parenthesized hleft ih hright
  | array hleft _ hright ih => exact .array hleft ih hright
  | stepsEnd => exact .stepsEnd
  | field hdot hname _ _ ih => exact .field hdot hname ih (by simp)
  | method hdot hname hleft _ hright _ iha ih => exact .method hdot hname hleft iha hright ih
  | index hleft _ hright _ ihi ih => exact .index hleft ihi hright ih
  | call hleft _ hright _ iha ih => exact .call hleft iha hright ih
  | itemsEnd => exact .itemsEnd
  | lastItem _ ih => exact .lastItem ih
  | item _ hcomma _ ih ihs => exact .item ih hcomma ihs

end Derives

variable {ts : List Token}

theorem eq_of_reads {phrase rest : List Token} {out : List Tree} {s : Symbol} {p : Position}
    (hts : ∀ t ∈ ts, t.kind ≠ .eof) (heq : ts ++ [.stop p] = phrase ++ rest)
    (hrest : (current rest).kind = .eof) (d : Derives true s phrase out) : phrase = ts := by
  rcases List.append_eq_append_iff.mp heq with ⟨more, rfl, hmore⟩ | ⟨left, rfl, hleft⟩
  · cases more with
    | nil => simp
    | cons t more =>
        have hstop : Token.stop p ∈ ts ++ t :: more := by
          rw [List.cons_append, List.cons.injEq] at hmore
          simp [hmore.1]
        exact absurd (d.mayStand _ hstop) (Token.not_mayStand_stop p)
  · cases left with
    | nil => simp
    | cons t left =>
        rw [hleft] at hrest
        exact absurd hrest (hts t (by simp))

theorem ofTokens_eq_ok_iff (hts : ∀ t ∈ ts, t.kind ≠ .eof) (p : Position) (t : Tree) :
    Tree.ofTokens (ts ++ [.stop p]) = .ok t ↔ Derives true .expr ts [t] := by
  constructor
  · intro h
    obtain ⟨rest, ⟨phrase, heq, d⟩, hrest⟩ := reads_of_ofTokens h
    rwa [← eq_of_reads hts heq hrest d]
  · intro d
    obtain ⟨first, others, rfl, hfirst⟩ := d.exists_cons rfl
    have hread := d.isRead [.stop p] (depthBound (first :: others ++ [.stop p]))
      (by simp [Stops, Token.stop, Symbol.level])
      (by simp only [depthFor, depthBound, Symbol.level, List.length_append, List.length_cons,
            List.length_nil]; omega)
    have hne : first.kind ≠ .eof := hts first (by simp)
    unfold Tree.ofTokens
    rw [hread]
    simp [hne, Token.stop, bind, Except.bind, pure, Except.pure]

/-- The trees that a token list stands for are those that the grammar gives it: there is one if
the list is an expression, and one only. -/
theorem ofTokens_derives (hts : ∀ t ∈ ts, t.kind ≠ .eof) (p : Position) :
    ((∃ t, Tree.ofTokens (ts ++ [.stop p]) = .ok t) ↔ ∃ t, Derives false .expr ts [t]) ∧
    (∀ t, Tree.ofTokens (ts ++ [.stop p]) = .ok t ↔ Derives true .expr ts [t]) ∧
    ∀ t u, Derives true .expr ts [t] → Derives true .expr ts [u] → t = u := by
  have hiff := ofTokens_eq_ok_iff hts p
  refine ⟨⟨?_, ?_⟩, hiff, ?_⟩
  · rintro ⟨t, h⟩
    exact ⟨t, ((hiff t).mp h).detach⟩
  · rintro ⟨t, d⟩
    obtain ⟨_, d⟩ := d.attach
    obtain ⟨u, rfl⟩ := d.exists_singleton rfl
    exact ⟨u, (hiff u).mpr d⟩
  · intro t u dt du
    have h := ((hiff t).mpr dt).symm.trans ((hiff u).mpr du)
    exact Except.ok.inj h

/-- `a.b(-1)` stands for a chain in which the arguments belong to the name before them. -/
theorem ofTokens_derives_method :
    (∀ t ∈ [(⟨.ident, "a", ⟨1, 1⟩⟩ : Token), ⟨.dot, ".", ⟨1, 2⟩⟩, ⟨.ident, "b", ⟨1, 3⟩⟩,
        ⟨.lpar, "(", ⟨1, 4⟩⟩, ⟨.minus, "-", ⟨1, 5⟩⟩, ⟨.number, "1", ⟨1, 6⟩⟩,
        ⟨.rpar, ")", ⟨1, 7⟩⟩], t.kind ≠ .eof) ∧
    Derives true .expr [⟨.ident, "a", ⟨1, 1⟩⟩, ⟨.dot, ".", ⟨1, 2⟩⟩, ⟨.ident, "b", ⟨1, 3⟩⟩,
        ⟨.lpar, "(", ⟨1, 4⟩⟩, ⟨.minus, "-", ⟨1, 5⟩⟩, ⟨.number, "1", ⟨1, 6⟩⟩,
        ⟨.rpar, ")", ⟨1, 7⟩⟩]
      [.node .chain (some ⟨1, 1⟩) [.leaf .ident "a",
        .node .method (some ⟨1, 2⟩) [.leaf .name "b",
          .node .args (some ⟨1, 2⟩) [.node .unary (some ⟨1, 5⟩)
            [.leaf .op "-", .leaf .number "1"]]]]] := by
  refine ⟨by decide, ?_⟩
  exact ((ofTokens_derives (by decide) ⟨1, 8⟩).2.1 _).mp rfl

end StringLambda
