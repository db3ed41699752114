import StringLambda.Proofs.Lexing.Words

namespace StringLambda

/-! Tokens written out with separators between them are read again as the same tokens, whatever
stood between them in their source. -/

def AreSeparators (gap : List Char) : Prop :=
  ∀ c ∈ gap, isSeparator c = true

instance (gap : List Char) : Decidable (AreSeparators gap) :=
  decidable_of_iff (gap.all isSeparator = true) List.all_eq_true

/-- The texts of tokens in order with separators behind each, at least one between neighbours. -/
inductive Spread : List Token → List Char → Prop
  | nil : Spread [] []
  | cons {t : Token} {ts : List Token} {gap text : List Char} :
      AreSeparators gap → (ts ≠ [] → gap ≠ []) → Spread ts text →
      Spread (t :: ts) (t.text.toList ++ (gap ++ text))

def Spaced (ts : List Token) (text : List Char) : Prop :=
  ∃ front body, AreSeparators front ∧ Spread ts body ∧ text = front ++ body

variable {ts : List Token} {gap text more : List Char}

theorem AreSeparators.hasWords (h : AreSeparators gap) : HasWords gap more [] := by
  induction gap with
  | nil => exact .nil
  | cons c gap ih =>
      rw [AreSeparators, List.forall_mem_cons] at h
      exact (HasWords.separator h.1).append (ih h.2)

theorem Spread.hasWords (h : Spread ts text) (hts : ∀ t ∈ ts, Lexeme t.kind t.text.toList) :
    HasWords text [] (ts.map Token.word) := by
  induction h with
  | nil => exact .nil
  | @cons t ts gap text hgap hneighbours hspread ih =>
      rw [List.forall_mem_cons] at hts
      have hword : HasWords t.text.toList (gap ++ text) [t.word] := by
        rw [Token.word, ← String.ofList_toList (s := t.text), String.toList_ofList]
        cases gap with
        | cons c gap => exact .of_lexeme hts.1 (hgap c (by simp))
        | nil =>
            cases hspread with
            | nil => exact .lexeme hts.1.reads
            | cons => exact absurd rfl (hneighbours (by simp))
      refine HasWords.cons (by simpa using hword) ?_
      exact hgap.hasWords.append (ih hts.2)

theorem exists_tokenize_of_spaced {source other : String} {p : Position}
    (hts : tokenize source = .ok (ts ++ [.stop p])) (h : Spaced ts other.toList) :
    ∃ us q, tokenize other = .ok (us ++ [.stop q]) ∧ us.map Token.word = ts.map Token.word := by
  obtain ⟨us, heq, hlexes⟩ := tokenize_eq_ok_iff.mp hts
  obtain ⟨rfl, -⟩ := List.append_inj' heq rfl
  obtain ⟨front, body, hfront, hbody, htext⟩ := h
  have hwords : HasWords other.toList [] (ts.map Token.word) := by
    rw [htext]
    exact hfront.hasWords.append (hbody.hasWords hlexes.lexeme_of_mem)
  obtain ⟨vs, hvs, hvlexes⟩ := hwords.exists_tokens
  exact ⟨vs, _, tokenize_of_lexes hvlexes, hvs⟩

end StringLambda
