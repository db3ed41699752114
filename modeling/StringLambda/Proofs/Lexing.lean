import StringLambda.Proofs.Lexing.Lexemes

namespace StringLambda

open Text

/-! The tokens of a source lay it out: lexemes in order, each the longest at its place, separators
around them, and the place of each told by what comes before. -/

variable {before text rest w cs : List Char} {ts : List Token} {kind : Kind} {c : Char}

theorem scan_skip (skip : Nat) (p : Position) (cs : List Char) (h : skip ≤ cs.length) :
    scan skip p cs = scan 0 (p.after (cs.take skip)) (cs.drop skip) := by
  induction skip generalizing p cs with
  | zero => rfl
  | succ skip ih =>
      cases cs with
      | nil => simp at h
      | cons c cs =>
          rw [scan, ih _ _ (by simpa using h)]
          rfl

theorem scan_separator (p : Position) (h : isSeparator c = true) :
    scan 0 p (c :: cs) = scan 0 (p.advance c) cs := by
  rw [scan, if_pos h]

theorem scan_issue {issue : LexIssue} (p : Position) (hsep : isSeparator c = false)
    (h : lexeme c cs = .error issue) : scan 0 p (c :: cs) = .error ⟨issue, p⟩ := by
  rw [scan, if_neg (by simp [hsep]), h]

theorem scan_lexeme (p : Position) (h : lexeme c (w ++ text) = .ok (kind, (c :: w).length))
    (hsep : isSeparator c = false) :
    scan 0 p (c :: w ++ text) = (scan 0 (p.after (c :: w)) text).map
      (⟨kind, String.ofList (c :: w), p⟩ :: ·) := by
  have htake : (c :: (w ++ text)).take (c :: w).length = c :: w := by
    simp
  rw [List.cons_append, scan, if_neg (by simp [hsep]), h]
  simp only [htake]
  rw [List.length_cons, Nat.add_sub_cancel, scan_skip w.length _ _ (by simp), List.take_left,
    List.drop_left, Position.after_cons]
  cases scan 0 ((p.advance c).after w) text <;> rfl

theorem lexeme_of_reads (h : Reads kind w (c :: cs)) : lexeme c cs = .ok (kind, w.length) := by
  rcases lexeme_cases c cs with ⟨k, v, hv, hreads⟩ | ⟨issue, -, hd⟩
  · obtain ⟨rfl, rfl⟩ := h.unique hreads
    exact hv
  · exact absurd h (hd.not_reads kind w)

theorem Lexes.scan_eq (h : Lexes before text ts rest) :
    ∀ after, before ++ text = after ++ rest →
      scan 0 (.behind before) text = (scan 0 (.behind after) rest).map (ts ++ ·) := by
  induction h with
  | @done before rest =>
      intro after heq
      rw [List.append_cancel_right heq]
      cases scan 0 (.behind after) rest <;> rfl
  | separator hsep _ ih =>
      intro after heq
      rw [scan_separator _ hsep, ← Position.behind_concat]
      exact ih after (by simpa using heq)
  | @lexeme before w text rest kind ts hreads _ ih =>
      intro after heq
      obtain ⟨c, w, rfl⟩ := hreads.lexeme.exists_cons
      rw [scan_lexeme _ (lexeme_of_reads hreads) hreads.lexeme.not_isSeparator,
        ← Position.behind_append, ih after (by simpa using heq)]
      cases scan 0 (.behind after) rest <;> rfl

theorem exists_lexes (before text : List Char) :
    (∃ ts, Lexes before text ts []) ∨
    ∃ ts read c rest issue, text = read ++ c :: rest ∧ Lexes before text ts (c :: rest) ∧
      isSeparator c = false ∧ lexeme c rest = .error issue ∧ issue.Describes (c :: rest) := by
  -- The induction is on the length, since a step drops a whole lexeme.
  induction hlen : text.length using Nat.strongRecOn generalizing before text with
  | _ n ih =>
      cases text with
      | nil => exact .inl ⟨[], .done⟩
      | cons c cs =>
          cases hsep : isSeparator c with
          | true =>
              have hstep := ih cs.length (by simp [← hlen]) (before ++ [c]) cs rfl
              rcases hstep with ⟨ts, hts⟩ | ⟨ts, read, d, rest, issue, rfl, hts, hrest⟩
              · exact .inl ⟨ts, .separator hsep hts⟩
              · exact .inr ⟨ts, c :: read, d, rest, issue, rfl, .separator hsep hts, hrest⟩
          | false =>
              rcases lexeme_cases c cs with ⟨kind, w, -, hreads⟩ | ⟨issue, hissue, hdescribes⟩
              · obtain ⟨text, htext⟩ := hreads.begins
                obtain ⟨v, rfl⟩ := hreads.lexeme.exists_cons_of_prefix hreads.begins
                rw [← htext] at hreads hlen ⊢
                have hshort : text.length < n := by
                  rw [← hlen, List.length_append, List.length_cons]
                  omega
                have hstep := ih text.length hshort (before ++ c :: v) text rfl
                rcases hstep with ⟨ts, hts⟩ | ⟨ts, read, d, rest, issue, rfl, hts, hrest⟩
                · exact .inl ⟨_, .lexeme hreads hts⟩
                · exact .inr ⟨_, c :: v ++ read, d, rest, issue, by simp,
                    .lexeme hreads hts, hrest⟩
              · exact .inr ⟨[], [], c, cs, issue, rfl, .done, hsep, hissue, hdescribes⟩

theorem tokenize_of_lexes {source : String} (h : Lexes [] source.toList ts []) :
    tokenize source = .ok (ts ++ [.stop (.behind source.toList)]) := by
  rw [tokenize, ← Position.behind_nil, h.scan_eq source.toList (by simp)]
  rfl

theorem tokenize_of_describes {source : String} {issue : LexIssue} {rest : List Char}
    (heq : source.toList = before ++ c :: rest) (h : Lexes [] source.toList ts (c :: rest))
    (hsep : isSeparator c = false) (hissue : lexeme c rest = .error issue) :
    tokenize source = .error ⟨issue, .behind before⟩ := by
  rw [tokenize, ← Position.behind_nil, h.scan_eq before (by simp [heq]),
    scan_issue _ hsep hissue]
  rfl

theorem tokenize_eq_ok_iff {source : String} {tokens : List Token} :
    tokenize source = .ok tokens ↔
      ∃ ts, tokens = ts ++ [.stop (.behind source.toList)] ∧ Lexes [] source.toList ts [] := by
  constructor
  · intro h
    rcases exists_lexes [] source.toList with ⟨ts, hts⟩ | ⟨ts, read, c, rest, issue, heq, hts,
      hsep, hissue, -⟩
    · rw [tokenize_of_lexes hts, Except.ok.injEq] at h
      exact ⟨ts, h.symm, hts⟩
    · rw [tokenize_of_describes heq hts hsep hissue] at h
      cases h
  · rintro ⟨ts, rfl, hts⟩
    exact tokenize_of_lexes hts

/-- Tokens lay out the source that they come from, and every layout of a source gives its tokens.
Where there are none, the error stands at the first character from which no lexeme can be read. -/
theorem tokenize_lexes (source : String) :
    (∀ tokens, tokenize source = .ok tokens ↔
      ∃ ts, tokens = ts ++ [.stop (.behind source.toList)] ∧ Lexes [] source.toList ts []) ∧
    ∀ e, tokenize source = .error e →
      ∃ before c rest ts, source.toList = before ++ c :: rest ∧
        Lexes [] source.toList ts (c :: rest) ∧ isSeparator c = false ∧
        (∀ kind w, ¬ Reads kind w (c :: rest)) ∧ e.issue.Describes (c :: rest) ∧
        e.place = .behind before := by
  constructor
  · exact fun tokens => tokenize_eq_ok_iff
  · intro e h
    rcases exists_lexes [] source.toList with ⟨ts, hts⟩ | ⟨ts, read, c, rest, issue, heq, hts,
      hsep, hissue, hdescribes⟩
    · rw [tokenize_of_lexes hts] at h
      cases h
    · rw [tokenize_of_describes heq hts hsep hissue, Except.error.injEq] at h
      subst h
      exact ⟨read, c, rest, ts, heq, hts, hsep, hdescribes.not_reads, hdescribes, rfl⟩

end StringLambda
