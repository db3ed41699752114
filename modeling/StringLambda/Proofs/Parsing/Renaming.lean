import StringLambda.Tree.Alike
import StringLambda.Tree.Grammar

namespace StringLambda

open StringLambda.Parser

/-! Token lists that differ in places and in the names of variables have trees that do so. -/

/-- Two tokens of one kind. Their texts are related where they are variables, and equal where they
are not; right after a point an identifier is no variable. -/
structure Token.Renames (related : String → String → Prop) (afterDot : Bool) (t u : Token) :
    Prop where
  kind : t.kind = u.kind
  ident : t.kind = .ident → afterDot = false → related t.text u.text
  text : t.kind ≠ .ident ∨ afterDot = true → t.text = u.text

inductive Renamed (related : String → String → Prop) : Bool → List Token → List Token → Prop where
  | nil {afterDot : Bool} : Renamed related afterDot [] []
  | cons {afterDot : Bool} {t u : Token} {ts us : List Token} :
      t.Renames related afterDot u → Renamed related (t.kind == .dot) ts us →
      Renamed related afterDot (t :: ts) (u :: us)

namespace Renamed

variable {related : String → String → Prop} {afterDot : Bool} {ls rs ts us : List Token}
  {op : Token}

theorem append_inv (h : Renamed related afterDot (ls ++ rs) us) :
    ∃ ls' rs' b, us = ls' ++ rs' ∧ Renamed related afterDot ls ls' ∧ Renamed related b rs rs' := by
  induction ls generalizing afterDot us with
  | nil => exact ⟨[], us, afterDot, rfl, .nil, h⟩
  | cons l ls ih =>
      cases h with
      | cons hl h =>
          obtain ⟨ls', rs', b, rfl, hls, hrs⟩ := ih h
          exact ⟨_ :: ls', rs', b, rfl, .cons hl hls, hrs⟩

theorem cons_inv (h : Renamed related afterDot (op :: rs) us) (hop : op.kind ≠ .ident) :
    ∃ op' rs', us = op' :: rs' ∧ op.kind = op'.kind ∧ op.text = op'.text ∧
      Renamed related (op.kind == .dot) rs rs' := by
  cases h with
  | cons hrename h => exact ⟨_, _, rfl, hrename.kind, hrename.text (.inl hop), h⟩

theorem operator_inv (h : Renamed related afterDot (ls ++ op :: rs) us) (hop : op.kind ≠ .ident)
    (hdot : op.kind ≠ .dot) :
    ∃ ls' op' rs', us = ls' ++ op' :: rs' ∧ Renamed related afterDot ls ls' ∧
      op.kind = op'.kind ∧ op.text = op'.text ∧ Renamed related false rs rs' := by
  obtain ⟨ls', us', b, rfl, hls, h⟩ := h.append_inv
  obtain ⟨op', rs', rfl, hkind, htext, hrs⟩ := h.cons_inv hop
  rw [beq_false_of_ne hdot] at hrs
  exact ⟨ls', op', rs', rfl, hls, hkind, htext, hrs⟩

theorem opening_inv (h : Renamed related afterDot (op :: rs) us) (hop : op.kind ≠ .ident)
    (hdot : op.kind ≠ .dot) :
    ∃ op' rs', us = op' :: rs' ∧ op.kind = op'.kind ∧ op.text = op'.text ∧
      Renamed related false rs rs' := by
  obtain ⟨op', rs', rfl, hkind, htext, hrs⟩ := h.cons_inv hop
  rw [beq_false_of_ne hdot] at hrs
  exact ⟨op', rs', rfl, hkind, htext, hrs⟩

theorem member_inv {dot name : Token} (h : Renamed related afterDot (dot :: name :: rs) us)
    (hdot : dot.kind = .dot) :
    ∃ dot' name' rs', us = dot' :: name' :: rs' ∧ dot'.kind = .dot ∧ name.kind = name'.kind ∧
      name.text = name'.text ∧ Renamed related (name.kind == .dot) rs rs' := by
  obtain ⟨dot', us', rfl, hkind, -, hrest⟩ := h.cons_inv (by simp [hdot])
  rw [hdot, beq_self_eq_true] at hrest
  cases hrest with
  | cons hname hrs =>
      exact ⟨dot', _, _, rfl, hkind ▸ hdot, hname.kind, hname.text (.inr rfl), hrs⟩

theorem bracketed_inv {left right : Token} {k l : Kind} {ss : List Token}
    (h : Renamed related afterDot (left :: (ts ++ right :: ss)) us) (hleft : left.kind = k)
    (hright : right.kind = l) (hk : k ≠ .ident ∧ k ≠ .dot) (hl : l ≠ .ident ∧ l ≠ .dot) :
    ∃ left' ts' right' ss', us = left' :: (ts' ++ right' :: ss') ∧ left'.kind = k ∧
      right'.kind = l ∧ Renamed related false ts ts' ∧ Renamed related false ss ss' := by
  subst hleft hright
  obtain ⟨left', us, rfl, hlk, -, hus⟩ := h.opening_inv hk.1 hk.2
  obtain ⟨ts', right', ss', rfl, hts, hrk, -, hss⟩ := hus.operator_inv hl.1 hl.2
  exact ⟨left', ts', right', ss', rfl, hlk.symm, hrk.symm, hts, hss⟩

theorem current_kind (h : Renamed related afterDot ts us) :
    (current ts).kind = (current us).kind := by
  cases h with
  | nil => rfl
  | cons hrename _ => exact hrename.kind

end Renamed

def endsInDot (afterDot : Bool) (ts : List Token) : Bool :=
  (ts.getLast?.map (·.kind == .dot)).getD afterDot

theorem endsInDot_cons (afterDot : Bool) (t : Token) (ts : List Token) :
    endsInDot afterDot (t :: ts) = endsInDot (t.kind == .dot) ts := by
  cases ts with
  | nil => rfl
  | cons u ts => rfl

theorem Renamed.append {related : String → String → Prop} {afterDot : Bool}
    {ls rs ls' rs' : List Token} (hl : Renamed related afterDot ls ls')
    (hr : Renamed related (endsInDot afterDot ls) rs rs') :
    Renamed related afterDot (ls ++ rs) (ls' ++ rs') := by
  induction hl with
  | nil => exact hr
  | cons hrename _ ih =>
      rw [endsInDot_cons] at hr
      exact .cons hrename (ih hr)

theorem Token.NamesMember.congr {t u : Token} (h : t.NamesMember) (hkind : t.kind = u.kind)
    (htext : t.text = u.text) : u.NamesMember := by
  rwa [NamesMember, ← hkind, ← htext]

theorem Signs.congr {op op' : Token} {text : String} (h : Signs op text)
    (hkind : op.kind = op'.kind) (htext : op.text = op'.text) : Signs op' text := by
  cases h with
  | sign h => exact htext ▸ .sign (hkind ▸ h)
  | negation h => exact .negation (hkind ▸ h)

theorem Joins.kind_ne {t : Parser.Tier} {op : Token} {p : Position} {l r u : Tree}
    (h : Joins t op p l r u) : op.kind ≠ .ident ∧ op.kind ≠ .dot := by
  constructor <;> intro hkind <;> cases h <;> simp_all

theorem Signs.kind_ne {op : Token} {text : String} (h : Signs op text) :
    op.kind ≠ .ident ∧ op.kind ≠ .dot := by
  constructor <;> intro hkind <;> cases h <;> simp_all

theorem IsLiteral.kind_ne {k : Kind} {l : LeafKind} (h : IsLiteral k l) :
    k ≠ .ident ∧ l ≠ .ident := by
  cases h <;> exact ⟨nofun, nofun⟩

namespace AllAlike

variable {related : String → String → Prop} {t : Tree} {us : List Tree}

theorem singleton_inv (h : AllAlike related [t] us) : ∃ u, us = [u] ∧ Alike related t u := by
  cases h with
  | cons ht h =>
      cases h with
      | nil => exact ⟨_, rfl, ht⟩

end AllAlike

theorem Alike.singleton {related : String → String → Prop} {t u : Tree} (h : Alike related t u) :
    AllAlike related [t] [u] :=
  .cons h .nil

theorem Alike.spelled {related : String → String → Prop} {label : Label} {p q : Option Position}
    {l l' r r' : Tree} (text : String) (hlabel : label ≠ .arrow)
    (hparts : label.textParts [l, .leaf .op text, r] = label.textParts [l', .leaf .op text, r'])
    (hl : Alike related l l') (hr : Alike related r r') :
    Alike related (.node label p [l, .leaf .op text, r]) (.node label q [l', .leaf .op text, r']) :=
  .node hlabel hparts (.cons hl (.cons (.leaf (by simp)) hr.singleton))

theorem Joins.alike {related : String → String → Prop} {t : Parser.Tier} {p : Position}
    {op op' : Token} {l l' r r' u : Tree} (h : Joins t op p l r u) (hkind : op.kind = op'.kind)
    (htext : op.text = op'.text) (hl : Alike related l l') (hr : Alike related r r')
    (q : Position) : ∃ u', Joins t op' q l' r' u' ∧ Alike related u u' := by
  cases h with
  | nullish h => exact ⟨_, .nullish (hkind ▸ h), .node (by simp) rfl (.cons hl hr.singleton)⟩
  | or h => exact ⟨_, .or (hkind ▸ h), .node (by simp) rfl (.cons hl hr.singleton)⟩
  | and h => exact ⟨_, .and (hkind ▸ h), .node (by simp) rfl (.cons hl hr.singleton)⟩
  | equality h => exact ⟨_, .equality (hkind ▸ h), htext ▸ .spelled _ (by simp) rfl hl hr⟩
  | relation h => exact ⟨_, .relation (hkind ▸ h), htext ▸ .spelled _ (by simp) rfl hl hr⟩
  | sum h => exact ⟨_, .sum (hkind ▸ h), htext ▸ .spelled _ (by simp) rfl hl hr⟩
  | product h => exact ⟨_, .product (hkind ▸ h), htext ▸ .spelled _ (by simp) rfl hl hr⟩

theorem exists_tree {related : String → String → Prop} {attached : Bool} {s : Symbol}
    {us : List Token} {t : Tree}
    (h : ∃ outs, Derives attached s us outs ∧ AllAlike related [t] outs) :
    ∃ u, Derives attached s us [u] ∧ Alike related t u := by
  obtain ⟨_, d, hall⟩ := h
  obtain ⟨u, rfl, ha⟩ := hall.singleton_inv
  exact ⟨u, d, ha⟩

/-- A list of tokens that are renamed is a phrase of the same kind, with trees that are alike. -/
theorem Derives.renamed {related : String → String → Prop} {attached : Bool} {s : Symbol}
    {ts us : List Token} {out : List Tree} {afterDot : Bool} (h : Derives attached s ts out)
    (hus : Renamed related afterDot ts us) (hstart : afterDot = false ∨ s = .steps) :
    ∃ outs, Derives attached s us outs ∧ AllAlike related out outs := by
  induction h generalizing afterDot us with
  | unconditional _ ih =>
      obtain ⟨u, d, ha⟩ := exists_tree (ih hus (.inl (hstart.resolve_right (by simp))))
      exact ⟨_, .unconditional d, ha.singleton⟩
  | conditional _ hq _ ho _ ihc ihy ihn =>
      obtain ⟨cs', q', us, rfl, hcs, hqk, -, hus⟩ := hus.operator_inv (by simp [hq]) (by simp [hq])
      obtain ⟨ys', o', ns', rfl, hys, hok, -, hns⟩ := hus.operator_inv (by simp [ho]) (by simp [ho])
      obtain ⟨c, dc, hc⟩ := exists_tree (ihc hcs (.inl (hstart.resolve_right (by simp))))
      obtain ⟨y, dy, hy⟩ := exists_tree (ihy hys (.inl rfl))
      obtain ⟨n, dn, hn⟩ := exists_tree (ihn hns (.inl rfl))
      refine ⟨_, .conditional dc (hqk ▸ hq) dy (hok ▸ ho) dn, Alike.singleton ?_⟩
      exact .node (by simp) rfl (.cons hc (.cons hy hn.singleton))
  | operand _ ih =>
      obtain ⟨u, d, ha⟩ := exists_tree (ih hus (.inl (hstart.resolve_right (by simp))))
      exact ⟨_, .operand d, ha.singleton⟩
  | joined _ hop _ ihl ihr =>
      obtain ⟨hident, hdot⟩ := hop.kind_ne
      obtain ⟨ls', op', rs', rfl, hls, hkind, htext, hrs⟩ := hus.operator_inv hident hdot
      obtain ⟨l, dl, hl⟩ := exists_tree (ihl hls (.inl (hstart.resolve_right (by simp))))
      obtain ⟨r, dr, hr⟩ := exists_tree (ihr hrs (.inl rfl))
      obtain ⟨u, hop', hu⟩ := hop.alike hkind htext hl hr (placeOf ls')
      exact ⟨_, .joined dl hop' dr, hu.singleton⟩
  | base _ ih =>
      obtain ⟨u, d, ha⟩ := exists_tree (ih hus (.inl (hstart.resolve_right (by simp))))
      exact ⟨_, .base d, ha.singleton⟩
  | raised _ hop _ ihb ihe =>
      obtain ⟨bs', op', es', rfl, hbs, hkind, -, hes⟩ :=
        hus.operator_inv (by simp [hop]) (by simp [hop])
      obtain ⟨b, db, hb⟩ := exists_tree (ihb hbs (.inl (hstart.resolve_right (by simp))))
      obtain ⟨e, de, he⟩ := exists_tree (ihe hes (.inl rfl))
      refine ⟨_, .raised db (hkind ▸ hop) de, Alike.singleton ?_⟩
      exact .node (by simp) rfl (.cons hb (.cons (.leaf (by simp)) he.singleton))
  | unsigned _ ih =>
      obtain ⟨u, d, ha⟩ := exists_tree (ih hus (.inl (hstart.resolve_right (by simp))))
      exact ⟨_, .unsigned d, ha.singleton⟩
  | signed hop _ ih =>
      obtain ⟨hident, hdot⟩ := hop.kind_ne
      obtain ⟨op', rs', rfl, hkind, htext, hrs⟩ := hus.opening_inv hident hdot
      obtain ⟨u, d, ha⟩ := exists_tree (ih hrs (.inl rfl))
      refine ⟨_, .signed (hop.congr hkind htext) d, Alike.singleton ?_⟩
      exact .node (by simp) rfl (.cons (.leaf (by simp)) ha.singleton)
  | bare _ ih =>
      obtain ⟨u, d, ha⟩ := exists_tree (ih hus (.inl (hstart.resolve_right (by simp))))
      exact ⟨_, .bare d, ha.singleton⟩
  | chain _ _ ihh ihs =>
      obtain ⟨hs', ss', b, rfl, hhs, hss⟩ := hus.append_inv
      obtain ⟨h, dh, hh⟩ := exists_tree (ihh hhs (.inl (hstart.resolve_right (by simp))))
      obtain ⟨_, ds, hs⟩ := ihs hss (.inr rfl)
      cases hs with
      | cons hstep hs =>
          refine ⟨_, .chain dh ds, Alike.singleton ?_⟩
          exact .node (by simp) rfl (.cons hh (.cons hstep hs))
  | literal hliteral =>
      obtain ⟨hident, hleaf⟩ := hliteral.kind_ne
      obtain ⟨t', rs', rfl, hkind, htext, hrs⟩ := hus.cons_inv hident
      cases hrs
      refine ⟨_, .literal (hkind ▸ hliteral), Alike.singleton ?_⟩
      rw [← htext]
      exact .leaf hleaf
  | ident hkind =>
      cases hus with
      | cons hrename hrs =>
          cases hrs
          refine ⟨_, .ident (hrename.kind ▸ hkind), Alike.singleton (.ident ?_)⟩
          exact hrename.ident hkind (hstart.resolve_right (by simp))
  | parenthesized hleft _ hright ih =>
      obtain ⟨left', ts', right', rs', rfl, hleft', hright', hts, hrs⟩ :=
        hus.bracketed_inv hleft hright (by simp) (by simp)
      cases hrs
      obtain ⟨u, d, ha⟩ := exists_tree (ih hts (.inl rfl))
      exact ⟨_, .parenthesized hleft' d hright', ha.singleton⟩
  | array hleft _ hright ih =>
      obtain ⟨left', ts', right', rs', rfl, hleft', hright', hts, hrs⟩ :=
        hus.bracketed_inv hleft hright (by simp) (by simp)
      cases hrs
      obtain ⟨_, d, ha⟩ := ih hts (.inl rfl)
      refine ⟨_, .array hleft' d hright', Alike.singleton ?_⟩
      exact .node (by simp) rfl ha
  | stepsEnd =>
      cases hus
      exact ⟨_, .stepsEnd, .nil⟩
  | field hdot hname _ hopen ih =>
      obtain ⟨dot', name', ss', rfl, hdot', hkind, htext, hss⟩ := hus.member_inv hdot
      obtain ⟨_, d, ha⟩ := ih hss (.inr rfl)
      refine ⟨_, .field hdot' (hname.congr hkind htext) d ?_, .cons ?_ ha⟩
      · rw [← hss.current_kind]
        exact hopen
      · rw [htext]
        exact .node (by simp) rfl (Alike.leaf (by simp)).singleton
  | method hdot hname hleft _ hright _ iha ih =>
      obtain ⟨dot', name', us, rfl, hdot', hkind, htext, hus⟩ := hus.member_inv hdot
      obtain ⟨left', ts', right', ss', rfl, hleft', hright', hts, hss⟩ :=
        hus.bracketed_inv hleft hright (by simp) (by simp)
      obtain ⟨_, da, haa⟩ := iha hts (.inl rfl)
      obtain ⟨_, d, ha⟩ := ih hss (.inr rfl)
      refine ⟨_, .method hdot' (hname.congr hkind htext) hleft' da hright' d, .cons ?_ ha⟩
      rw [htext]
      refine .node (by simp) rfl (.cons (.leaf (by simp)) (Alike.singleton ?_))
      exact .node (by simp) rfl haa
  | index hleft _ hright _ ihi ih =>
      obtain ⟨left', ts', right', ss', rfl, hleft', hright', hts, hss⟩ :=
        hus.bracketed_inv hleft hright (by simp) (by simp)
      obtain ⟨i, di, hi⟩ := exists_tree (ihi hts (.inl rfl))
      obtain ⟨_, d, ha⟩ := ih hss (.inr rfl)
      exact ⟨_, .index hleft' di hright' d, .cons (.node (by simp) rfl hi.singleton) ha⟩
  | call hleft _ hright _ iha ih =>
      obtain ⟨left', ts', right', ss', rfl, hleft', hright', hts, hss⟩ :=
        hus.bracketed_inv hleft hright (by simp) (by simp)
      obtain ⟨_, da, haa⟩ := iha hts (.inl rfl)
      obtain ⟨_, d, ha⟩ := ih hss (.inr rfl)
      refine ⟨_, .call hleft' da hright' d, .cons ?_ ha⟩
      refine .node (by simp) rfl (Alike.singleton ?_)
      exact .node (by simp) rfl haa
  | itemsEnd =>
      cases hus
      exact ⟨_, .itemsEnd, .nil⟩
  | lastItem _ ih =>
      obtain ⟨u, d, ha⟩ := exists_tree (ih hus (.inl (hstart.resolve_right (by simp))))
      exact ⟨_, .lastItem d, ha.singleton⟩
  | item _ hcomma _ ih ihs =>
      obtain ⟨ts', comma', rs', rfl, hts, hkind, -, hrs⟩ :=
        hus.operator_inv (by simp [hcomma]) (by simp [hcomma])
      obtain ⟨u, d, ha⟩ := exists_tree (ih hts (.inl (hstart.resolve_right (by simp))))
      obtain ⟨_, ds, hs⟩ := ihs hrs (.inl rfl)
      exact ⟨_, .item d (hkind ▸ hcomma) ds, .cons ha hs⟩

theorem Tree.kind_of_mem_freeNames {kind : LeafKind} {text x : String}
    (h : x ∈ (Tree.leaf kind text).freeNames) : kind = .ident := by
  cases kind with
  | ident => rfl
  | _ => simp [Tree.freeNames] at h

theorem Tree.mem_children_of_mem_freeNames {label : Label} {place : Option Position}
    {cs : List Tree} {x : String} (h : x ∈ (Tree.node label place cs).freeNames) :
    x ∈ Tree.freeNamesOf cs := by
  cases label with
  | arrow => simp [Tree.freeNames] at h
  | _ => simpa only [Tree.freeNames] using h

mutual

theorem Alike.exists_related {related : String → String → Prop} {t u : Tree} {x : String}
    (h : Alike related t u) (hx : x ∈ t.freeNames) : ∃ y, related x y := by
  cases h with
  | ident h =>
      simp only [Tree.freeNames, List.mem_singleton] at hx
      exact ⟨_, hx ▸ h⟩
  | leaf h => exact absurd (Tree.kind_of_mem_freeNames hx) h
  | node _ _ hall => exact AllAlike.exists_related hall (Tree.mem_children_of_mem_freeNames hx)
termination_by sizeOf t

theorem AllAlike.exists_related {related : String → String → Prop} {ts us : List Tree} {x : String}
    (h : AllAlike related ts us) (hx : x ∈ Tree.freeNamesOf ts) : ∃ y, related x y := by
  cases h with
  | nil => simp [Tree.freeNamesOf] at hx
  | cons ht hts =>
      simp only [Tree.freeNamesOf, List.mem_append] at hx
      rcases hx with hx | hx
      · exact Alike.exists_related ht hx
      · exact AllAlike.exists_related hts hx
termination_by sizeOf ts

end

theorem Renamed.of_words {related : String → String → Prop} {ts us : List Token}
    (hwords : ts.map Token.word = us.map Token.word)
    (h : ∀ t ∈ ts, t.kind = .ident → related t.text t.text) (afterDot : Bool) :
    Renamed related afterDot ts us := by
  induction ts generalizing us afterDot with
  | nil =>
      cases us with
      | nil => exact .nil
      | cons u us => cases hwords
  | cons t ts ih =>
      cases us with
      | nil => cases hwords
      | cons u us =>
          simp only [List.map_cons, List.cons.injEq, Token.word, Prod.mk.injEq] at hwords
          obtain ⟨⟨hkind, htext⟩, hrest⟩ := hwords
          rw [List.forall_mem_cons] at h
          refine .cons ⟨hkind, fun hident _ => ?_, fun _ => htext⟩ (ih hrest h.2 _)
          rw [← htext]
          exact h.1 hident

theorem Derives.mem_of_mem_freeNames {attached : Bool} {s : Symbol} {ts : List Token}
    {out : List Tree} {x : String} (h : Derives attached s ts out)
    (hx : x ∈ Tree.freeNamesOf out) : ∃ t ∈ ts, t.kind = .ident ∧ t.text = x := by
  have hself : Renamed (fun x _ => ∃ t ∈ ts, t.kind = .ident ∧ t.text = x) false ts ts :=
    Renamed.of_words rfl (fun t ht hkind => ⟨t, ht, hkind, rfl⟩) false
  obtain ⟨_, -, hall⟩ := h.renamed hself (.inl rfl)
  obtain ⟨-, h⟩ := hall.exists_related hx
  exact h

theorem Derives.mem_freeNames {attached : Bool} {s : Symbol} {ts : List Token} {t : Tree}
    {x : String} (h : Derives attached s ts [t]) (hx : x ∈ t.freeNames) :
    ∃ u ∈ ts, u.kind = .ident ∧ u.text = x := by
  refine h.mem_of_mem_freeNames ?_
  simpa [Tree.freeNamesOf] using hx

end StringLambda
