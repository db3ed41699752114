import StringLambda.Proofs.Lexing

namespace StringLambda

open Text

/-! Lexing apart from places: a text reads as the same words wherever it stands, and texts that are
put together read as their words put together, as long as no lexeme runs over the seam. -/

variable {w cs more text : List Char} {kind k : Kind} {c : Char}

theorem AreDigits.not_isSeparator {ds : List Char} (h : AreDigits ds) :
    ∀ c ∈ ds, isSeparator c = false := by
  intro c hc
  cases hsep : isSeparator c with
  | false => rfl
  | true =>
      have hd := h.2 c hc
      rw [(classes_of_isSeparator hsep).2.1] at hd
      cases hd

theorem Numeral.not_isSeparator (h : Numeral w) : ∀ c ∈ w, isSeparator c = false := by
  cases h with
  | parts hw hf he =>
      simp only [List.forall_mem_append]
      refine ⟨hw.not_isSeparator, ?_, ?_⟩
      · cases hf with
        | missing => simp
        | point hds => exact List.forall_mem_cons.mpr ⟨rfl, hds.not_isSeparator⟩
      · cases he with
        | missing => simp
        | unsigned he hds =>
            refine List.forall_mem_cons.mpr ⟨?_, hds.not_isSeparator⟩
            rcases he with rfl | rfl <;> rfl
        | signed he hs hds =>
            refine List.forall_mem_cons.mpr ⟨?_, List.forall_mem_cons.mpr
              ⟨?_, hds.not_isSeparator⟩⟩
            · rcases he with rfl | rfl <;> rfl
            · rcases hs with rfl | rfl <;> rfl

theorem Lexeme.not_mem_of_isSeparator (h : Lexeme kind w) (hkind : kind ≠ .string) :
    ∀ c ∈ w, isSeparator c = false := by
  cases h with
  | string => exact absurd rfl hkind
  | number hn => exact hn.not_isSeparator
  | @word c w hc hw =>
      have hall : ∀ d ∈ c :: w, isWordChar d = true :=
        List.forall_mem_cons.mpr ⟨isWordChar_of_opensWord hc, hw⟩
      intro d hd
      cases hsep : isSeparator d with
      | false => rfl
      | true =>
          have hword := hall d hd
          rw [(classes_of_isSeparator hsep).2.2.2] at hword
          cases hword
  | operator ho => exact not_isSeparator_of_mem_operators ho

theorem length_eq_of_string {v : List Char} (hv : Lexeme .string v) (hw : Lexeme kind w)
    (hprev : v <+: text) (hprew : w <+: text) : v.length = w.length := by
  obtain ⟨c, v, rfl⟩ := hv.exists_cons
  obtain ⟨v', hv'⟩ := hprev
  subst hv'
  obtain ⟨w, rfl⟩ := hw.exists_cons_of_prefix hprew
  obtain ⟨w', hw'⟩ := hprew
  rcases hv.of_cons with ⟨hq, -, hbody⟩ | ⟨-, hnum, -⟩ | ⟨-, hword, -⟩ | ⟨-, -, -, hop⟩
  · have hquote := ne_backslash_of_isQuote hq
    have hlen := stringTail?_append hquote hbody v'
    rw [List.cons_append, List.cons_append, List.cons.injEq] at hw'
    rw [← hw'.2, stringTail?_append hquote (hw.of_isQuote hq).2, Option.some.injEq] at hlen
    simp [hlen]
  · cases hnum
  · exact absurd hword.symm (wordKind_ne _ (by decide) (by decide))
  · have hall : ∀ e ∈ operators, e.2 ≠ .string := by decide
    exact absurd rfl (hall _ hop)

/-- A lexeme stays the one that a text begins with when a separator and more come after the text. -/
theorem Reads.extend (h : Reads kind w (w ++ cs)) (hsep : isSeparator c = true) :
    Reads kind w (w ++ (cs ++ c :: more)) := by
  refine ⟨h.lexeme, List.prefix_append _ _, ?_, ?_⟩
  · intro k v hv hpre
    by_cases hlen : v.length ≤ (w ++ cs).length
    · refine h.longest k v hv ?_
      rw [← List.append_assoc] at hpre
      exact List.prefix_of_prefix_length_le hpre (List.prefix_append _ _) hlen
    · by_cases hstring : k = .string
      · subst hstring
        exact Nat.le_of_eq (length_eq_of_string hv h.lexeme hpre (List.prefix_append _ _))
      -- The separator would stand inside a lexeme that is no string literal.
      · have hwhole : w ++ cs ++ [c] <+: v := by
          rw [← List.append_assoc, List.append_cons] at hpre
          refine List.prefix_of_prefix_length_le (List.prefix_append _ _) hpre ?_
          rw [List.length_append, List.length_singleton]
          omega
        have hmem : c ∈ v := hwhole.subset (by simp)
        rw [hv.not_mem_of_isSeparator hstring c hmem] at hsep
        cases hsep
  · intro hkind d hpre
    rw [List.prefix_append_right_inj] at hpre
    cases cs with
    | nil =>
        rw [List.nil_append, List.cons_prefix_cons] at hpre
        rw [hpre.1]
        exact (classes_of_isSeparator hsep).2.2.1
    | cons e cs =>
        rw [List.cons_append, List.cons_prefix_cons] at hpre
        refine h.ends hkind d ((List.prefix_append_right_inj _).mpr ?_)
        rw [hpre.1]
        exact List.cons_prefix_cons.mpr ⟨rfl, List.nil_prefix⟩

theorem Lexeme.reads (h : Lexeme kind w) : Reads kind w (w ++ []) := by
  rw [List.append_nil]
  refine ⟨h, List.prefix_refl _, fun _ _ _ hpre => hpre.length_le, fun _ d hpre => ?_⟩
  have hle := hpre.length_le
  rw [List.length_append, List.length_singleton] at hle
  omega

theorem reads_word_of_not (hc : opensWord c = true) (hw : ∀ d ∈ w, isWordChar d = true) {d : Char}
    (hd : isWordChar d = false) :
    Reads (wordKind (String.ofList (c :: w))) (c :: w) (c :: w ++ d :: more) := by
  refine ⟨.word hc hw, List.prefix_append _ _, ?_, fun hkind => absurd hkind (wordKind_ne_number _)⟩
  intro k v hv hpre
  have hlen : v.length ≤ wordLength (c :: w ++ d :: more) := longest_word hc hv hpre
  have hall : ∀ e ∈ c :: w, isWordChar e = true :=
    List.forall_mem_cons.mpr ⟨isWordChar_of_opensWord hc, hw⟩
  rwa [wordLength, List.takeWhile_append_of_pos hall,
    List.takeWhile_cons_of_neg (by simp [hd]), List.append_nil] at hlen

theorem Lexeme.reads_string (h : Lexeme .string w) : Reads .string w (w ++ more) := by
  refine ⟨h, List.prefix_append _ _, ?_, by simp⟩
  intro k v hv hpre
  exact Nat.le_of_eq (length_eq_of_string h hv (List.prefix_append _ _) hpre).symm

theorem reads_operator_of_prefix (hop : ([c], kind) ∈ operators)
    (hshort : ∀ v, (c :: v) ∈ operators.map Prod.fst → c :: v <+: c :: more → v = []) :
    Reads kind [c] (c :: more) := by
  obtain ⟨d, v, heq, hq, hd, hl⟩ := exists_cons_of_mem_operators hop
  cases heq
  refine ⟨.operator hop, ⟨more, rfl⟩, fun k v hv hpre => ?_, ?_⟩
  · obtain ⟨v, rfl⟩ := hv.exists_cons_of_prefix hpre
    have hmem := List.mem_map_of_mem (f := Prod.fst) (hv.mem_operators hq hd hl)
    exact Nat.le_of_eq (by rw [hshort v hmem hpre])
  · rintro rfl
    have hall : ∀ e ∈ operators, e.2 ≠ .number := by decide
    exact absurd rfl (hall _ hop)

theorem reads_operator_of_single (hop : ([c], kind) ∈ operators)
    (hsingle : ∀ e ∈ operators, e.1.head? = some c → e.1.length ≤ 1) :
    Reads kind [c] (c :: more) := by
  refine reads_operator_of_prefix hop fun v hv _ => ?_
  obtain ⟨e, he, heq⟩ := List.mem_map.mp hv
  have hlength := hsingle e he (by rw [heq]; rfl)
  rw [heq, List.length_cons] at hlength
  exact List.length_eq_zero_iff.mp (by omega)

theorem Lexeme.exists_word (h : Lexeme .ident w) :
    ∃ c v, w = c :: v ∧ opensWord c = true ∧ (∀ d ∈ v, isWordChar d = true) ∧
      wordKind (String.ofList w) = .ident := by
  obtain ⟨c, v, rfl⟩ := h.exists_cons
  rcases h.of_cons with ⟨-, hk, -⟩ | ⟨-, hk, -⟩ | ⟨hc, hk, hv⟩ | ⟨-, -, -, hop⟩
  · cases hk
  · cases hk
  · exact ⟨c, v, rfl, hc, hv, hk.symm⟩
  · have hall : ∀ e ∈ operators, e.2 ≠ .ident := by decide
    exact absurd rfl (hall _ hop)

theorem lexeme_ident {c : Char} (hc : opensWord c = true) (hw : ∀ d ∈ w, isWordChar d = true)
    (hkind : wordKind (String.ofList (c :: w)) = .ident) : Lexeme .ident (c :: w) := by
  rw [← hkind]
  exact .word hc hw

theorem lexeme_letter {name : String} {c : Char} (hname : name.toList = [c])
    (hc : opensWord c = true) (hkind : wordKind name = .ident) : Lexeme .ident name.toList := by
  have hofList : String.ofList [c] = name := by rw [← hname, String.ofList_toList]
  rw [hname]
  exact lexeme_ident hc (by simp) (hofList ▸ hkind)

theorem Lexeme.kind_ne_eof (h : Lexeme kind w) : kind ≠ .eof := by
  cases h with
  | string => simp
  | number => simp
  | word => exact wordKind_ne _ (by decide) (by decide)
  | operator hop =>
      have hall : ∀ e ∈ operators, e.2 ≠ .eof := by decide
      exact hall _ hop

/-- In front of `more`, the text reads as the words, wherever it stands. -/
def HasWords (text more : List Char) (words : List (Kind × String)) : Prop :=
  ∀ before us rest, Lexes (before ++ text) more us rest →
    ∃ ts, ts.map Token.word = words ∧ Lexes before (text ++ more) (ts ++ us) rest

namespace HasWords

variable {a b : List Char} {words others : List (Kind × String)}

theorem nil : HasWords [] more [] := by
  intro before us rest h
  rw [List.append_nil] at h
  exact ⟨[], rfl, h⟩

theorem append (ha : HasWords a (b ++ more) words) (hb : HasWords b more others) :
    HasWords (a ++ b) more (words ++ others) := by
  intro before us rest h
  rw [← List.append_assoc] at h
  obtain ⟨vs, rfl, hvs⟩ := hb _ us rest h
  obtain ⟨ts, rfl, hts⟩ := ha before _ rest hvs
  exact ⟨ts ++ vs, by simp, by simpa using hts⟩

theorem cons {word : Kind × String} (ha : HasWords a (b ++ more) [word])
    (hb : HasWords b more others) : HasWords (a ++ b) more (word :: others) :=
  ha.append hb

theorem separator (hc : isSeparator c = true) : HasWords [c] more [] := by
  intro before us rest h
  exact ⟨[], rfl, .separator hc h⟩

theorem lexeme (h : Reads kind w (w ++ more)) :
    HasWords w more [(kind, String.ofList w)] := by
  intro before us rest hmore
  exact ⟨[⟨kind, String.ofList w, .behind before⟩], rfl, .lexeme h hmore⟩

theorem of_lexeme (h : Lexeme kind w) (hc : isSeparator c = true) :
    HasWords w (c :: more) [(kind, String.ofList w)] :=
  lexeme (h.reads.extend hc)

theorem word (hw : Lexeme .ident w) {d : Char} (hd : isWordChar d = false) :
    HasWords w (d :: more) [(.ident, String.ofList w)] := by
  obtain ⟨c, v, rfl, hc, hv, hkind⟩ := hw.exists_word
  rw [← hkind]
  exact lexeme (reads_word_of_not hc hv hd)

theorem string (h : Lexeme .string w) : HasWords w more [(.string, String.ofList w)] :=
  lexeme h.reads_string

theorem single (hop : ([c], kind) ∈ operators)
    (hsingle : ∀ e ∈ operators, e.1.head? = some c → e.1.length ≤ 1) :
    HasWords [c] more [(kind, String.ofList [c])] :=
  lexeme (reads_operator_of_single hop hsingle)

theorem comma (h : HasWords b more words) :
    HasWords (", ".toList ++ b) more ((.comma, ",") :: words) := by
  have hcomma : HasWords [','] ([' '] ++ b ++ more) [(.comma, ",")] :=
    single (by decide) (by decide)
  have hblank : HasWords [' '] (b ++ more) [] := separator rfl
  exact hcomma.append (hblank.append h)

theorem of_lexes {before : List Char} {ts : List Token} (h : Lexes before text ts [])
    (hmore : more = [] ∨ ∃ d rest, more = d :: rest ∧ isSeparator d = true) :
    HasWords text more (ts.map Token.word) := by
  generalize hrest : ([] : List Char) = rest at h
  induction h with
  | done =>
      subst hrest
      exact nil
  | separator hc _ ih => exact append (separator hc) (ih hrest)
  | @lexeme _ w text _ kind _ hr _ ih =>
      have hhead : HasWords w (text ++ more) [(kind, String.ofList w)] := by
        refine lexeme ?_
        rcases hmore with rfl | ⟨d, more, rfl, hd⟩
        · simpa using hr
        · exact hr.extend hd
      exact hhead.append (ih hrest)

theorem exists_tokens {source : String} (h : HasWords source.toList [] words) :
    ∃ ts, ts.map Token.word = words ∧ Lexes [] source.toList ts [] := by
  obtain ⟨ts, hts, hlex⟩ := h [] [] [] .done
  exact ⟨ts, hts, by simpa using hlex⟩

theorem exists_lexes {source : String} {tokens : List Token} (h : HasWords a b words)
    (hsource : source.toList = a ++ b) (htokens : tokenize source = .ok tokens) :
    ∃ us, Lexes a b us [] := by
  rcases StringLambda.exists_lexes a b with
    hb | ⟨us, read, c, rest, issue, hb, hus, hsep, hissue, -⟩
  · exact hb
  · obtain ⟨ts, -, hts⟩ := h [] us (c :: rest) hus
    have hfails : tokenize source = .error ⟨issue, .behind (a ++ read)⟩ :=
      tokenize_of_describes (by simp [hsource, hb]) (by simpa [hsource] using hts) hsep hissue
    rw [hfails] at htokens
    cases htokens

end HasWords

theorem Lexes.lexeme_of_mem {before rest : List Char} {ts : List Token}
    (h : Lexes before text ts rest) : ∀ t ∈ ts, Lexeme t.kind t.text.toList := by
  induction h with
  | done => simp
  | separator _ _ ih => exact ih
  | lexeme hr _ ih =>
      refine List.forall_mem_cons.mpr ⟨?_, ih⟩
      rw [String.toList_ofList]
      exact hr.lexeme

end StringLambda
