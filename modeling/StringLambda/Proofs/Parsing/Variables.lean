import StringLambda.Proofs.Parsing.Renaming
import StringLambda.Proofs.Parsing.Soundness

namespace StringLambda

open StringLambda.Parser

/-! The variables of a tree are those of its tokens: the identifiers that stand right after no
point. -/

/-- The variables of a token list in order, as often as they stand there. -/
def variableNames (afterDot : Bool) : List Token → List String
  | [] => []
  | t :: ts =>
    let later := variableNames (t.kind == .dot) ts
    if t.kind == .ident && !afterDot then t.text :: later else later

section

variable {afterDot : Bool} {t : Token} {ls rs ts : List Token}

theorem variableNames_cons (ht : t.kind ≠ .ident) :
    variableNames afterDot (t :: ts) = variableNames (t.kind == .dot) ts := by
  simp [variableNames, ht]

theorem variableNames_append :
    variableNames afterDot (ls ++ rs) =
      variableNames afterDot ls ++ variableNames (endsInDot afterDot ls) rs := by
  induction ls generalizing afterDot with
  | nil => rfl
  | cons l ls ih =>
      rw [List.cons_append, variableNames, variableNames, ih, endsInDot_cons]
      split <;> rfl

theorem variableNames_opening (ht : t.kind ≠ .ident ∧ t.kind ≠ .dot) :
    variableNames afterDot (t :: rs) = variableNames false rs := by
  rw [variableNames_cons ht.1, beq_false_of_ne ht.2]

theorem variableNames_operator (ht : t.kind ≠ .ident ∧ t.kind ≠ .dot) :
    variableNames afterDot (ls ++ t :: rs) =
      variableNames afterDot ls ++ variableNames false rs := by
  rw [variableNames_append, variableNames_opening ht]

theorem variableNames_member {dot name : Token} (hdot : dot.kind = .dot) :
    variableNames afterDot (dot :: name :: rs) = variableNames (name.kind == .dot) rs := by
  simp [variableNames, hdot]

end

theorem Joins.freeNames_eq {tier : Parser.Tier} {op : Token} {place : Position} {l r t : Tree}
    (h : Joins tier op place l r t) : t.freeNames = l.freeNames ++ r.freeNames := by
  cases h <;> simp [Tree.freeNames, Tree.freeNamesOf]

theorem Derives.variableNames_eq {attached : Bool} {s : Symbol} {ts : List Token} {out : List Tree}
    {afterDot : Bool} (h : Derives attached s ts out) (hstart : afterDot = false ∨ s = .steps) :
    variableNames afterDot ts = Tree.freeNamesOf out := by
  have hseparator {t : Token} {k : Kind} (ht : t.kind = k) (hk : k ≠ .ident ∧ k ≠ .dot) :
      t.kind ≠ .ident ∧ t.kind ≠ .dot := ht ▸ hk
  induction h generalizing afterDot with
  | stepsEnd | itemsEnd => rfl
  | unconditional _ ih | operand _ ih | base _ ih | unsigned _ ih | bare _ ih | lastItem _ ih =>
      exact ih (.inl (hstart.resolve_right (by simp)))
  | conditional _ hq _ ho _ ihc ihy ihn =>
      rw [variableNames_operator (hseparator hq (by simp)),
        variableNames_operator (hseparator ho (by simp)),
        ihc (.inl (hstart.resolve_right (by simp))), ihy (.inl rfl), ihn (.inl rfl)]
      simp [Tree.freeNamesOf, Tree.freeNames]
  | joined _ hop _ ihl ihr =>
      rw [variableNames_operator hop.kind_ne,
        ihl (.inl (hstart.resolve_right (by simp))), ihr (.inl rfl)]
      simp [Tree.freeNamesOf, hop.freeNames_eq]
  | raised _ hop _ ihb ihe =>
      rw [variableNames_operator (hseparator hop (by simp)),
        ihb (.inl (hstart.resolve_right (by simp))), ihe (.inl rfl)]
      simp [Tree.freeNamesOf, Tree.freeNames]
  | signed hop _ ih =>
      rw [variableNames_opening hop.kind_ne, ih (.inl rfl)]
      simp [Tree.freeNamesOf, Tree.freeNames]
  | chain _ _ ihh ihs =>
      rw [variableNames_append, ihh (.inl (hstart.resolve_right (by simp))), ihs (.inr rfl)]
      simp [Tree.freeNamesOf, Tree.freeNames]
  | literal ht =>
      rw [variableNames_cons ht.kind_ne.1]
      simp [Tree.freeNamesOf, Tree.freeNames_leaf ht.kind_ne.2, variableNames]
  | ident ht =>
      rw [hstart.resolve_right (by simp)]
      simp [variableNames, ht, Tree.freeNamesOf, Tree.freeNames]
  | parenthesized hleft _ hright ih | array hleft _ hright ih =>
      rw [variableNames_opening (hseparator hleft (by simp)),
        variableNames_operator (hseparator hright (by simp)), ih (.inl rfl)]
      simp [variableNames, Tree.freeNamesOf, Tree.freeNames]
  | field hdot _ _ _ ih =>
      rw [variableNames_member hdot, ih (.inr rfl)]
      simp [Tree.freeNamesOf, Tree.freeNames]
  | method hdot _ hleft _ hright _ iha ih =>
      rw [variableNames_member hdot, variableNames_opening (hseparator hleft (by simp)),
        variableNames_operator (hseparator hright (by simp)), iha (.inl rfl), ih (.inr rfl)]
      simp [Tree.freeNamesOf, Tree.freeNames]
  | index hleft _ hright _ ihi ih | call hleft _ hright _ ihi ih =>
      rw [variableNames_opening (hseparator hleft (by simp)),
        variableNames_operator (hseparator hright (by simp)), ihi (.inl rfl), ih (.inr rfl)]
      simp [Tree.freeNamesOf, Tree.freeNames]
  | item _ hcomma _ ih ihs =>
      rw [variableNames_operator (hseparator hcomma (by simp)),
        ih (.inl (hstart.resolve_right (by simp))), ihs (.inl rfl)]
      simp [Tree.freeNamesOf]

theorem freeNames_of_ofTokens {ts : List Token} {t : Tree} (h : Tree.ofTokens ts = .ok t) :
    ∃ read rest, ts = read ++ rest ∧ (current rest).kind = .eof ∧
      t.freeNames = variableNames false read := by
  obtain ⟨rest, ⟨read, rfl, d⟩, hrest⟩ := reads_of_ofTokens h
  refine ⟨read, rest, rfl, hrest, ?_⟩
  rw [d.variableNames_eq (.inl rfl), Tree.freeNamesOf, Tree.freeNamesOf, List.append_nil]

theorem variableNames_append_end {ts rest : List Token} (hrest : (current rest).kind = .eof)
    (htail : rest.tail = []) : variableNames false (ts ++ rest) = variableNames false ts := by
  cases rest with
  | nil => rw [List.append_nil]
  | cons stop rest =>
      obtain rfl : rest = [] := htail
      have hstop : stop.kind = .eof := hrest
      simp [variableNames_append, variableNames, hstop]

end StringLambda
