import StringLambda.Token.Lexeme

namespace StringLambda

open Text

/-! The lexeme found at a place of a text is the longest one that the text begins with there. -/

section
variable {quote c : Char} (cs : List Char)

theorem stringTail?_quote : stringTail? quote (quote :: cs) = some 1 := by
  rw [stringTail?.eq_def]
  simp

theorem stringTail?_escape (hq : quote ≠ '\\') :
    stringTail? quote ('\\' :: c :: cs) = (stringTail? quote cs).map (· + 2) := by
  rw [stringTail?.eq_def]
  simp [Ne.symm hq]

theorem stringTail?_plain (hc : c ≠ quote) (hb : c ≠ '\\') :
    stringTail? quote (c :: cs) = (stringTail? quote cs).map (· + 1) := by
  rw [stringTail?.eq_def]
  simp [hc, hb]

end

theorem stringTail?_append {quote : Char} (hq : quote ≠ '\\') {w : List Char}
    (h : StringBody quote w) (rest : List Char) :
    stringTail? quote (w ++ rest) = some w.length := by
  induction h with
  | close => exact stringTail?_quote rest
  | escape _ ih => simp [stringTail?_escape _ hq, ih]
  | plain hc hb _ ih => simp [stringTail?_plain _ hc hb, ih]

theorem stringBody_of_stringTail? {quote : Char} {cs : List Char} {n : Nat}
    (h : stringTail? quote cs = some n) :
    ∃ w rest, cs = w ++ rest ∧ w.length = n ∧ StringBody quote w := by
  induction cs using stringTail?.induct quote generalizing n with
  | case1 => cases h
  | case2 cs =>
      rw [stringTail?_quote, Option.some.injEq] at h
      exact ⟨[quote], cs, rfl, h, .close⟩
  | case3 hq => simp [stringTail?, hq] at h
  | case4 c cs hq ih =>
      rw [stringTail?_escape _ (Ne.symm hq), Option.map_eq_some_iff] at h
      obtain ⟨m, hm, rfl⟩ := h
      obtain ⟨w, rest, rfl, rfl, hw⟩ := ih hm
      exact ⟨_, rest, rfl, rfl, .escape hw⟩
  | case5 c cs hc hb ih =>
      rw [stringTail?_plain _ hc hb, Option.map_eq_some_iff] at h
      obtain ⟨m, hm, rfl⟩ := h
      obtain ⟨w, rest, rfl, rfl, hw⟩ := ih hm
      exact ⟨c :: w, rest, rfl, rfl, .plain hc hb hw⟩

theorem digitRun_append {ds : List Char} (h : ∀ c ∈ ds, isAsciiDigit c = true)
    (rest : List Char) : digitRun (ds ++ rest) = ds.length + digitRun rest := by
  simp [digitRun, List.takeWhile_append_of_pos h]

theorem digitRun_cons_of_not {c : Char} (h : isAsciiDigit c = false) (rest : List Char) :
    digitRun (c :: rest) = 0 := by
  simp [digitRun, h]

theorem areDigits_take {cs : List Char} (h : digitRun cs ≠ 0) :
    AreDigits (cs.take (digitRun cs)) := by
  have htake : cs.take (digitRun cs) = cs.takeWhile isAsciiDigit := by
    exact (List.prefix_iff_eq_take.mp (List.takeWhile_prefix _)).symm
  rw [htake]
  exact ⟨fun hnil => h (by simp [digitRun, hnil]), fun c hc => (List.all_eq_true.mp
    (List.all_takeWhile ..)) c hc⟩

theorem fraction_take (cs : List Char) : Fraction (cs.take (fractionLength cs)) := by
  unfold fractionLength
  split
  next ds =>
    split
    next => exact .missing
    next h => exact .point (areDigits_take h)
  next => exact .missing

theorem exponent_take (cs : List Char) : Exponent (cs.take (exponentLength cs)) := by
  unfold exponentLength
  split
  next e rest =>
    split
    next he =>
      split
      next sign ds =>
        split
        next hs =>
          split
          next => exact .missing
          next h => exact .signed he hs (areDigits_take h)
        next =>
          split
          next => exact .missing
          next h => exact .unsigned he (areDigits_take h)
      next => exact .missing
    next => exact .missing
  next => exact .missing

theorem digitRun_le (cs : List Char) : digitRun cs ≤ cs.length :=
  (List.takeWhile_prefix _).length_le

theorem fractionLength_le (cs : List Char) : fractionLength cs ≤ cs.length := by
  unfold fractionLength
  split
  next ds =>
    have hle := digitRun_le ds
    simp only [List.length_cons]
    split <;> omega
  next => omega

theorem exponentLength_le (cs : List Char) : exponentLength cs ≤ cs.length := by
  unfold exponentLength
  split
  next e rest =>
    split
    next =>
      split
      next sign ds =>
        have hds := digitRun_le ds
        have hrest := digitRun_le (sign :: ds)
        simp only [List.length_cons] at hrest ⊢
        split <;> split <;> omega
      next => omega
    next => omega
  next => omega

theorem numberLength_le (cs : List Char) : numberLength cs ≤ cs.length := by
  have hwhole := digitRun_le cs
  have hfraction := fractionLength_le (cs.drop (digitRun cs))
  have hexponent := exponentLength_le (cs.drop (digitRun cs + fractionLength
    (cs.drop (digitRun cs))))
  simp only [List.length_drop] at hfraction hexponent
  simp only [numberLength]
  omega

theorem numeral_take {c : Char} {cs : List Char} (hc : isAsciiDigit c = true) :
    Numeral ((c :: cs).take (numberLength (c :: cs))) := by
  have hwhole : digitRun (c :: cs) ≠ 0 := by simp [digitRun, hc]
  simp only [numberLength, List.take_add, List.append_assoc]
  exact .parts (areDigits_take hwhole) (fraction_take _) (exponent_take _)

theorem numberLength_append {ds : List Char} (h : ∀ c ∈ ds, isAsciiDigit c = true)
    (rest : List Char) : numberLength (ds ++ rest) = ds.length + numberLength rest := by
  simp only [numberLength, digitRun_append h, Nat.add_assoc, List.drop_length_add_append]

theorem length_le_exponentLength {w : List Char} (h : Exponent w) (rest : List Char) :
    w.length ≤ exponentLength (w ++ rest) := by
  cases h with
  | missing => simp
  | @unsigned e ds he hds =>
      cases ds with
      | nil => exact absurd rfl hds.1
      | cons d ds =>
          have hd : isAsciiDigit d = true := hds.2 d (by simp)
          have hsign : ¬ (d = '+' ∨ d = '-') := by
            rintro (rfl | rfl) <;> cases hd
          have hrun := digitRun_append hds.2 rest
          simp only [List.cons_append, List.length_cons] at hrun ⊢
          simp only [exponentLength, he, hsign, hrun, if_true, if_false]
          split <;> omega
  | @signed e sign ds he hs hds =>
      have hrun := digitRun_append hds.2 rest
      have hpos : ds.length ≠ 0 := by simpa using hds.1
      simp only [List.cons_append, List.length_cons, exponentLength, he, hs, hrun, if_true]
      split <;> omega

theorem isAsciiDigit_of_exponent {e : Char} (h : e = 'e' ∨ e = 'E') : isAsciiDigit e = false := by
  rcases h with rfl | rfl <;> rfl

theorem exponent_le_numberLength {w : List Char} (h : Exponent w) (rest : List Char) :
    w.length ≤ numberLength (w ++ rest) := by
  have hlen := length_le_exponentLength h rest
  have hskip : ∀ {e : Char} {v : List Char}, e = 'e' ∨ e = 'E' →
      numberLength (e :: v) = exponentLength (e :: v) := by
    intro e v he
    have hpoint : e ≠ '.' := by rcases he with rfl | rfl <;> decide
    simp [numberLength, digitRun_cons_of_not (isAsciiDigit_of_exponent he), fractionLength, hpoint]
  cases h with
  | missing => simp
  | unsigned he | signed he =>
      simp only [List.cons_append] at hlen ⊢
      rwa [hskip he]

theorem numberLength_point {ds rest : List Char} (h : AreDigits ds) :
    numberLength ('.' :: (ds ++ rest)) = 1 + ds.length + digitRun rest +
      exponentLength (rest.drop (digitRun rest)) := by
  have hpos : ds.length ≠ 0 := by simpa using h.1
  have hrun := digitRun_append h.2 rest
  have hzero : ds.length + digitRun rest ≠ 0 := by omega
  simp only [numberLength, digitRun_cons_of_not (show isAsciiDigit '.' = false from rfl),
    fractionLength, List.drop_zero, hrun, hzero, if_false, Nat.zero_add,
    List.drop_succ_cons, List.drop_length_add_append]
  omega

theorem exponent_le_past_digits {w : List Char} (h : Exponent w) (rest : List Char) :
    w.length ≤ digitRun (w ++ rest) +
      exponentLength ((w ++ rest).drop (digitRun (w ++ rest))) := by
  have hlen := length_le_exponentLength h rest
  cases h with
  | missing => simp
  | unsigned he | signed he =>
      simp only [List.cons_append, digitRun_cons_of_not (isAsciiDigit_of_exponent he),
        List.drop_zero] at hlen ⊢
      omega

theorem length_le_numberLength {w : List Char} (h : Numeral w) (rest : List Char) :
    w.length ≤ numberLength (w ++ rest) := by
  cases h with
  | @parts whole fraction exponent hw hf he =>
      rw [List.append_assoc, List.append_assoc, numberLength_append hw.2]
      cases hf with
      | missing =>
          have hle := exponent_le_numberLength he rest
          simpa using hle
      | @point ds hds =>
          have hle := exponent_le_past_digits he rest
          rw [List.cons_append, List.cons_append, numberLength_point hds]
          simp only [List.length_append, List.length_cons]
          omega

theorem length_le_wordLength {w rest : List Char} (h : ∀ d ∈ w, isWordChar d = true) :
    w.length ≤ wordLength (w ++ rest) := by
  simp [wordLength, List.takeWhile_append_of_pos h]

theorem operators_sorted : operators.Pairwise fun a b => b.1.length ≤ a.1.length := by
  decide

theorem find?_operators_longest {text spelling w : List Char} {kind k : Kind}
    (h : operators.find? (fun (v, _) => v.isPrefixOf text) = some (spelling, kind))
    (hw : (w, k) ∈ operators) (hpre : w <+: text) : w.length ≤ spelling.length := by
  obtain ⟨-, before, after, heq, hbefore⟩ := List.find?_eq_some_iff_append.mp h
  have hsorted := operators_sorted
  rw [heq] at hw hsorted
  rcases List.mem_append.mp hw with hw | hw
  · have hnot := hbefore _ hw
    simp only [List.isPrefixOf_iff_prefix.mpr hpre] at hnot
    cases hnot
  · rcases List.mem_cons.mp hw with heq | hw
    · cases heq
      exact Nat.le_refl _
    · exact List.rel_of_pairwise_cons (List.pairwise_append.mp hsorted).2.1 hw

variable {c : Char} {w cs rest : List Char} {kind : Kind}

theorem Lexeme.exists_cons_of_prefix (h : Lexeme kind w) (hpre : w <+: c :: cs) :
    ∃ v, w = c :: v := by
  obtain ⟨d, v, rfl⟩ := h.exists_cons
  exact ⟨v, by rw [(List.cons_prefix_cons.mp hpre).1]⟩

theorem reads_string {quote : Char} (hq : isQuote quote = true) (h : StringBody quote w) :
    Reads .string (quote :: w) (quote :: (w ++ rest)) := by
  refine ⟨.string hq h, ⟨rest, rfl⟩, ?_, by simp⟩
  intro k v hv hpre
  obtain ⟨v, rfl⟩ := hv.exists_cons_of_prefix hpre
  obtain ⟨more, hmore⟩ := (List.cons_prefix_cons.mp hpre).2
  have hw := stringTail?_append (ne_backslash_of_isQuote hq) h rest
  have hv := stringTail?_append (ne_backslash_of_isQuote hq) (hv.of_isQuote hq).2 more
  rw [hmore, hw, Option.some.injEq] at hv
  simp [hv]

theorem longest_number (hc : isAsciiDigit c = true) {k : Kind} {v : List Char} (hv : Lexeme k v)
    (hpre : v <+: c :: cs) : v.length ≤ numberLength (c :: cs) := by
  obtain ⟨v, rfl⟩ := hv.exists_cons_of_prefix hpre
  obtain ⟨more, hmore⟩ := hpre
  rw [← hmore]
  exact length_le_numberLength (hv.of_isAsciiDigit hc).2 more

theorem longest_word (hc : opensWord c = true) {k : Kind} {v : List Char} (hv : Lexeme k v)
    (hpre : v <+: c :: cs) : v.length ≤ wordLength (c :: cs) := by
  obtain ⟨v, rfl⟩ := hv.exists_cons_of_prefix hpre
  obtain ⟨more, hmore⟩ := hpre
  rw [← hmore]
  refine length_le_wordLength ?_
  exact List.forall_mem_cons.mpr ⟨isWordChar_of_opensWord hc, (hv.of_opensWord hc).2⟩

theorem wordLength_cons (hc : opensWord c = true) :
    (c :: cs).take (wordLength (c :: cs)) = c :: cs.takeWhile isWordChar := by
  rw [wordLength, ← List.prefix_iff_eq_take.mp (List.takeWhile_prefix _),
    List.takeWhile_cons_of_pos (isWordChar_of_opensWord hc)]

theorem wordKind_cases (word : String) :
    wordKind word = .ident ∨ ∃ e ∈ keywords, wordKind word = e.2 := by
  unfold wordKind
  cases hword : keywords.lookup word with
  | none => exact .inl rfl
  | some k =>
      obtain ⟨before, after, heq, -⟩ := List.lookup_eq_some_iff.mp hword
      exact .inr ⟨(word, k), by simp [heq], rfl⟩

theorem wordKind_ne (word : String) {k : Kind} (hk : k ≠ .ident) (hall : ∀ e ∈ keywords, e.2 ≠ k) :
    wordKind word ≠ k := by
  rcases wordKind_cases word with h | ⟨e, he, h⟩
  · rw [h]
    exact hk.symm
  · rw [h]
    exact hall e he

theorem wordKind_ne_number (word : String) : wordKind word ≠ .number :=
  wordKind_ne word (by decide) (by decide)

theorem reads_word (hc : opensWord c = true) :
    Reads (wordKind (String.ofList ((c :: cs).take (wordLength (c :: cs)))))
      ((c :: cs).take (wordLength (c :: cs))) (c :: cs) := by
  have hle : wordLength (c :: cs) ≤ (c :: cs).length := (List.takeWhile_prefix _).length_le
  refine ⟨?_, List.take_prefix _ _, ?_, ?_⟩
  · rw [wordLength_cons hc]
    exact .word hc fun d hd => List.all_eq_true.mp List.all_takeWhile d hd
  · intro k v hv hpre
    rw [List.length_take, Nat.min_eq_left hle]
    exact longest_word hc hv hpre
  · intro hkind
    exact absurd hkind (wordKind_ne_number _)

theorem reads_operator (hq : isQuote c = false) (hd : isAsciiDigit c = false)
    (hl : opensWord c = false) {spelling : List Char}
    (h : operators.find? (fun (v, _) => v.isPrefixOf (c :: cs)) = some (spelling, kind)) :
    Reads kind spelling (c :: cs) := by
  have hmem : (spelling, kind) ∈ operators := List.mem_of_find?_eq_some h
  have hpre : spelling.isPrefixOf (c :: cs) = true :=
    (List.find?_eq_some_iff_append.mp h).1
  refine ⟨.operator hmem, List.isPrefixOf_iff_prefix.mp hpre, ?_, ?_⟩
  · intro k v hv hpre
    obtain ⟨v, rfl⟩ := hv.exists_cons_of_prefix hpre
    exact find?_operators_longest h (hv.mem_operators hq hd hl) hpre
  · rintro rfl
    have hall : ∀ e ∈ operators, e.2 ≠ .number := by decide
    exact absurd rfl (hall _ hmem)

theorem lexeme_string {n : Nat} (hq : isQuote c = true) (h : stringTail? c cs = some n) :
    lexeme c cs = .ok (.string, n + 1) := by
  rw [lexeme, if_pos hq, h]

theorem lexeme_unterminated (hq : isQuote c = true) (h : stringTail? c cs = none) :
    lexeme c cs = .error .unterminatedString := by
  rw [lexeme, if_pos hq, h]

section
variable (hd : isAsciiDigit c = true)
include hd

theorem isQuote_of_isAsciiDigit : ¬ isQuote c = true := fun h => by
  simp [isAsciiDigit_of_isQuote h] at hd

theorem lexeme_number_stop (hlen : (c :: cs).length = numberLength (c :: cs)) :
    lexeme c cs = .ok (.number, (c :: cs).length) := by
  rw [lexeme, if_neg (isQuote_of_isAsciiDigit hd), if_pos hd, ← hlen]
  simp only [List.drop_length]

theorem lexeme_number_next {next : Char} (heq : c :: cs = w ++ next :: rest)
    (hlen : w.length = numberLength (c :: cs)) :
    lexeme c cs = if opensWord next then .error (.invalidNumber (String.ofList (w ++ [next])))
      else .ok (.number, w.length) := by
  rw [lexeme, if_neg (isQuote_of_isAsciiDigit hd), if_pos hd, ← hlen, heq]
  have htake : (w ++ next :: rest).take (w.length + 1) = w ++ [next] := by
    simp [List.take_append, List.take_of_length_le]
  simp only [htake, List.drop_left]

end

theorem lexeme_word (hl : opensWord c = true) :
    lexeme c cs = .ok (wordKind (String.ofList ((c :: cs).take (wordLength (c :: cs)))),
      wordLength (c :: cs)) := by
  have hq : ¬ isQuote c = true := fun h => by simp [opensWord_of_isQuote h] at hl
  have hd : ¬ isAsciiDigit c = true := fun h => by simp [opensWord_of_isAsciiDigit h] at hl
  rw [lexeme, if_neg hq, if_neg hd, if_pos hl]

section
variable (hq : isQuote c = false) (hd : isAsciiDigit c = false) (hl : opensWord c = false)
include hq hd hl

theorem lexeme_operator {spelling : List Char}
    (h : operators.find? (fun (v, _) => v.isPrefixOf (c :: cs)) = some (spelling, kind)) :
    lexeme c cs = .ok (kind, spelling.length) := by
  rw [lexeme, if_neg (by simp [hq]), if_neg (by simp [hd]), if_neg (by simp [hl]), h]

theorem lexeme_unexpected
    (h : operators.find? (fun (v, _) => v.isPrefixOf (c :: cs)) = none) :
    lexeme c cs = .error (.unexpectedCharacter c) := by
  rw [lexeme, if_neg (by simp [hq]), if_neg (by simp [hd]), if_neg (by simp [hl]), h]

end

theorem exists_numeral (cs : List Char) (hd : isAsciiDigit c = true) :
    ∃ w rest, c :: cs = w ++ rest ∧ w.length = numberLength (c :: cs) ∧ Numeral w := by
  refine ⟨_, _, (List.take_append_drop (numberLength (c :: cs)) _).symm, ?_, numeral_take hd⟩
  rw [List.length_take, Nat.min_eq_left (numberLength_le _)]

/-- What the lexeme function answers: the lexeme that the text begins with, or an issue that
describes the text. -/
theorem lexeme_cases (c : Char) (cs : List Char) :
    (∃ kind w, lexeme c cs = .ok (kind, w.length) ∧ Reads kind w (c :: cs)) ∨
    ∃ issue, lexeme c cs = .error issue ∧ issue.Describes (c :: cs) := by
  cases hq : isQuote c with
  | true =>
      cases hn : stringTail? c cs with
      | some n =>
          rw [lexeme_string hq hn]
          obtain ⟨w, rest, rfl, rfl, hw⟩ := stringBody_of_stringTail? hn
          exact .inl ⟨.string, c :: w, rfl, reads_string hq hw⟩
      | none =>
          refine .inr ⟨_, lexeme_unterminated hq hn, .unterminatedString hq ?_⟩
          rintro w hw ⟨rest, rfl⟩
          rw [stringTail?_append (ne_backslash_of_isQuote hq) hw] at hn
          cases hn
  | false =>
      cases hd : isAsciiDigit c with
      | true =>
          obtain ⟨w, rest, heq, hlen, hnum⟩ := exists_numeral cs hd
          have hlongest : ∀ k v, Lexeme k v → v <+: c :: cs → v.length ≤ w.length := by
            intro k v hv hpre
            rw [hlen]
            exact longest_number hd hv hpre
          cases rest with
          | nil =>
              rw [List.append_nil] at heq
              subst heq
              refine .inl ⟨.number, _, lexeme_number_stop hd hlen, .number hnum,
                List.prefix_refl _, hlongest, fun _ d hmore => ?_⟩
              have hle := hmore.length_le
              simp only [List.length_append, List.length_cons, List.length_nil] at hle
              omega
          | cons next rest =>
              rw [lexeme_number_next hd heq hlen]
              cases hnext : opensWord next with
              | true =>
                  rw [heq] at hlongest ⊢
                  exact .inr ⟨_, rfl, .invalidNumber (.number hnum) hlongest hnext⟩
              | false =>
                  refine .inl ⟨.number, w, rfl, .number hnum, ⟨_, heq.symm⟩, hlongest,
                    fun _ d hmore => ?_⟩
                  rw [heq, List.prefix_append_right_inj, List.cons_prefix_cons] at hmore
                  rw [hmore.1, hnext]
      | false =>
          cases hl : opensWord c with
          | true =>
              have hle : wordLength (c :: cs) ≤ (c :: cs).length :=
                (List.takeWhile_prefix _).length_le
              refine .inl ⟨_, _, ?_, reads_word hl⟩
              rw [lexeme_word hl, List.length_take, Nat.min_eq_left hle]
          | false =>
              cases hfind : operators.find? fun (spelling, _) => spelling.isPrefixOf (c :: cs) with
              | some e =>
                  exact .inl ⟨e.2, e.1, lexeme_operator hq hd hl hfind,
                    reads_operator hq hd hl hfind⟩
              | none =>
                  refine .inr ⟨_, lexeme_unexpected hq hd hl hfind,
                    .unexpectedCharacter fun k w hw hpre => ?_⟩
                  obtain ⟨w, rfl⟩ := hw.exists_cons_of_prefix hpre
                  have hnone := List.find?_eq_none.mp hfind _ (hw.mem_operators hq hd hl)
                  exact hnone (List.isPrefixOf_iff_prefix.mpr hpre)

end StringLambda
