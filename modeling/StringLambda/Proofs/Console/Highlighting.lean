import StringLambda.Console.Highlight
import StringLambda.Proofs.Lexing.Words
import StringLambda.Proofs.Searching

namespace StringLambda

/-! Highlighting keeps every character of a line, and the fragments of a text that is a source are
its tokens with the blanks between them. -/

namespace Text

theorem firstOccurrence?_append {c : Char} {gap : List Char} (hgap : ∀ d ∈ gap, d ≠ c)
    (w more : List Char) :
    firstOccurrence? (c :: w) (gap ++ c :: (w ++ more)) = some gap.length := by
  induction gap with
  | nil => simp [firstOccurrence?]
  | cons d gap ih =>
      rw [List.forall_mem_cons] at hgap
      rw [List.cons_append, firstOccurrence?, if_neg, ih hgap.2]
      · rfl
      · simp [List.isPrefixOf, hgap.1.symm]

theorem eq_of_firstOccurrence? {w text : List Char} {i : Nat}
    (h : firstOccurrence? w text = some i) :
    text = text.take i ++ (w ++ text.drop (i + w.length)) := by
  have hfirst := firstOccurrence?_isFirst w text
  rw [h] at hfirst
  obtain ⟨⟨-, rest, hrest⟩, -⟩ := hfirst
  rw [← List.drop_drop, ← hrest, List.drop_left, hrest, List.take_append_drop]

end Text

namespace Fragment

variable {before text line : List Char} {ts : List Token} {fs : List Fragment}

def written (fs : List Fragment) : List Char :=
  fs.flatMap (·.text)

@[simp] theorem written_unstyled (cs : List Char) : written (unstyled cs) = cs := by
  cases cs <;> simp [unstyled, written]

theorem written_append (fs gs : List Fragment) : written (fs ++ gs) = written fs ++ written gs :=
  List.flatMap_append

theorem written_cons (f : Fragment) (fs : List Fragment) :
    written (f :: fs) = f.text ++ written fs := rfl

theorem written_ofTokens (ts : List Token) (body : List Char) :
    written (ofTokens body ts) = body := by
  induction ts generalizing body with
  | nil => simp [ofTokens]
  | cons t ts ih =>
      simp only [ofTokens]
      split
      next => exact ih body
      next =>
        split
        next => exact ih body
        next i hi =>
          rw [written_append, written_cons, written_unstyled, ih]
          exact (Text.eq_of_firstOccurrence? hi).symm

theorem written_ofSource (body : List Char) : written (ofSource body) = body := by
  rw [ofSource]
  split
  next => exact written_ofTokens _ body
  next => simp [written]

/-- The styles of the groups that tokens fall into by their kinds and texts. -/
inductive Looks : Kind → String → String → Prop where
  | placeholder : Looks .ident "_" "bold ansiyellow"
  | name {s : String} : s ≠ "_" → Looks .ident s ""
  | keyword {s : String} : Looks .in s "bold ansicyan"
  | word {kind : Kind} {s : String} : kind ∈ [.and, .or, .not] → s ∈ ["and", "or", "not"] →
      Looks kind s "bold ansicyan"
  | sign {kind : Kind} {s : String} : kind ∈ [.and, .or, .not] → s ∉ ["and", "or", "not"] →
      Looks kind s ""
  | constant {kind : Kind} {s : String} : kind ∈ [.true, .false, .null, .undefined] →
      Looks kind s "ansicyan"
  | number {s : String} : Looks .number s "ansimagenta"
  | string {s : String} : Looks .string s "ansigreen"
  | arrow {s : String} : Looks .arrow s "bold ansiblue"
  | operator {kind : Kind} {s : String} :
      kind ∈ [.plus, .minus, .star, .slash, .mod, .pow, .eq, .neq, .seq, .sneq, .lt, .lte, .gt,
        .gte, .nullish] → Looks kind s ""
  | punctuation {kind : Kind} {s : String} :
      kind ∈ [.lpar, .rpar, .lsqb, .rsqb, .dot, .comma, .colon, .qmark] → Looks kind s ""

theorem looks_of_word {kind : Kind} (hkind : kind ∈ [.and, .or, .not]) (s : String) :
    Looks kind s
      (if Highlight.operatorWords.contains s then Highlight.keyword else .plain).style := by
  split
  next hs => exact .word hkind (List.contains_iff_mem.mp hs)
  next hs => exact .sign hkind (mt List.contains_iff_mem.mpr hs)

theorem looks_ofToken {kind : Kind} (h : kind ≠ .eof) (s : String) (p : Position) :
    Looks kind s (Highlight.ofToken ⟨kind, s, p⟩).style := by
  cases kind with
  | ident =>
      show Looks .ident s (if s == "_" then Highlight.placeholder else .plain).style
      split
      next hs =>
        obtain rfl := eq_of_beq hs
        exact .placeholder
      next hs => exact .name (mt beq_iff_eq.mpr hs)
  | and | or | not => exact looks_of_word (by decide) s
  | «in» => exact .keyword
  | true | false | null | undefined => exact .constant (by decide)
  | number => exact .number
  | string => exact .string
  | arrow => exact .arrow
  | eof => exact absurd rfl h
  | lpar | rpar | lsqb | rsqb | dot | comma | colon | qmark => exact .punctuation (by decide)
  | _ => exact .operator (by decide)

/-- The fragments of tokens that come behind `before`: each token is one fragment at its own place
in the style of its group, and any other fragment is blank and has no style. -/
inductive Shows : List Char → List Token → List Fragment → Prop where
  | done {before : List Char} : Shows before [] []
  | blank {before : List Char} {f : Fragment} {ts : List Token} {fs : List Fragment} :
      f.highlight.style = "" → (∀ c ∈ f.text, c ∈ [' ', '\t', '\n', '\r']) →
      Shows (before ++ f.text) ts fs → Shows before ts (f :: fs)
  | token {before : List Char} {f : Fragment} {t : Token} {ts : List Token}
      {fs : List Fragment} :
      t.place = .behind before → f.text = t.text.toList →
      Looks t.kind t.text f.highlight.style →
      Shows (before ++ f.text) ts fs → Shows before (t :: ts) (f :: fs)

theorem mem_of_isSeparator {c : Char} (h : isSeparator c = true) :
    c ∈ [' ', '\t', '\n', '\r'] := by
  simpa [isSeparator, or_assoc] using h

theorem Shows.unstyled {gap : List Char} (h : Shows (before ++ gap) ts fs)
    (hgap : ∀ c ∈ gap, isSeparator c = true) :
    Shows before ts (Fragment.unstyled gap ++ fs) := by
  cases gap with
  | nil => simpa [Fragment.unstyled] using h
  | cons c gap => exact .blank rfl (fun d hd => mem_of_isSeparator (hgap d hd)) h

theorem ofTokens_stop (body : List Char) (p : Position) :
    ofTokens body [.stop p] = Fragment.unstyled body := by
  simp [ofTokens, Token.stop]

theorem ofTokens_lexeme {kind : Kind} {w gap : List Char} {p : Position} (h : Lexeme kind w)
    (hgap : ∀ c ∈ gap, isSeparator c = true) (text : List Char) (ts : List Token) :
    ofTokens (gap ++ (w ++ text)) (⟨kind, String.ofList w, p⟩ :: ts) =
      Fragment.unstyled gap ++
        ⟨.ofToken ⟨kind, String.ofList w, p⟩, w⟩ :: ofTokens text ts := by
  have heof : kind ≠ .eof := h.kind_ne_eof
  obtain ⟨c, v, rfl⟩ := h.exists_cons
  have hne : ∀ d ∈ gap, d ≠ c := by
    rintro d hd rfl
    have hsep := hgap d hd
    rw [h.not_isSeparator] at hsep
    cases hsep
  have hfound := Text.firstOccurrence?_append hne v text
  simp [ofTokens, heof, hfound]

theorem shows_of_lexes {rest : List Char} (h : Lexes before text ts rest) (hrest : rest = [])
    (p : Position) : ∀ front gap, before = front ++ gap → (∀ c ∈ gap, isSeparator c = true) →
      Shows front ts (ofTokens (gap ++ text) (ts ++ [.stop p])) := by
  induction h with
  | done =>
      subst hrest
      rintro front gap rfl hgap
      rw [List.append_nil, List.nil_append, ofTokens_stop]
      have hdone : Shows (front ++ gap) [] [] := .done
      simpa using hdone.unstyled hgap
  | @separator before text rest c ts hsep _ ih =>
      rintro front gap rfl hgap
      rw [List.append_cons]
      refine ih hrest front (gap ++ [c]) (by simp) ?_
      simpa [or_imp, forall_and] using ⟨hgap, hsep⟩
  | @lexeme before w text rest kind ts hreads _ ih =>
      rintro front gap rfl hgap
      rw [List.cons_append, ofTokens_lexeme hreads.lexeme hgap]
      have hmore := ih hrest (front ++ gap ++ w) [] (List.append_nil _).symm (by simp)
      refine Shows.unstyled ?_ hgap
      exact .token rfl String.toList_ofList.symm
        (looks_ofToken hreads.lexeme.kind_ne_eof _ _) hmore

theorem shows_ofSource {body : List Char} {p : Position}
    (h : tokenize (String.ofList body) = .ok (ts ++ [.stop p])) : Shows [] ts (ofSource body) := by
  obtain ⟨us, heq, hlexes⟩ := tokenize_eq_ok_iff.mp h
  obtain ⟨rfl, -⟩ := List.append_inj' heq rfl
  rw [String.toList_ofList] at hlexes
  rw [ofSource, h]
  exact shows_of_lexes hlexes rfl p [] [] rfl (by simp)

theorem ne_nil_of_mem_unstyled {cs : List Char} {f : Fragment} (h : f ∈ Fragment.unstyled cs) :
    f.text ≠ [] := by
  cases cs with
  | nil => cases h
  | cons c cs =>
      cases List.mem_singleton.mp h
      simp

theorem ne_nil_of_mem_ofTokens {body : List Char} {f : Fragment} (h : f ∈ ofTokens body ts) :
    f.text ≠ [] := by
  induction ts generalizing body with
  | nil => exact ne_nil_of_mem_unstyled h
  | cons t ts ih =>
      simp only [ofTokens] at h
      split at h
      next => exact ih h
      next htext =>
        split at h
        next => exact ih h
        next =>
          simp only [List.mem_append, List.mem_cons] at h
          rcases h with h | rfl | h
          · exact ne_nil_of_mem_unstyled h
          · simpa using (not_or.mp htext).2
          · exact ih h

theorem ne_nil_of_mem_ofSource {body : List Char} {f : Fragment} (hbody : body ≠ [])
    (h : f ∈ ofSource body) : f.text ≠ [] := by
  rw [ofSource] at h
  split at h
  next => exact ne_nil_of_mem_ofTokens h
  next =>
    cases List.mem_singleton.mp h
    exact hbody

/-- A line, the fragments of the command in front of it, and the text that is read as a source: what
stands behind the first space of a line that begins with a slash, and any other line as a whole. -/
inductive HasHead : List Char → List Fragment → List Char → Prop where
  | source {line : List Char} : line.head? ≠ some '/' → HasHead line [] line
  | command {name body : List Char} {f space : Fragment} :
      ' ' ∉ name → f.text = '/' :: name → f.highlight.style = "bold ansiblue" →
      space.text = [' '] → space.highlight.style = "" →
      HasHead ('/' :: (name ++ ' ' :: body)) [f, space] body
  | name {name : List Char} {f : Fragment} :
      ' ' ∉ name → f.text = '/' :: name → f.highlight.style = "bold ansiblue" →
      HasHead ('/' :: name) [f] []

theorem takeWhile_name {name : List Char} (hname : ' ' ∉ name) (more : List Char) :
    (name ++ more).takeWhile (· != ' ') = name ++ more.takeWhile (· != ' ') := by
  refine List.takeWhile_append_of_pos fun c hc => ?_
  exact bne_iff_ne.mpr fun heq => hname (heq ▸ hc)

/-- A line has the fragments of its command and those of the text behind it. A text that is empty
has none, but for a line that is empty as a whole. -/
theorem exists_ofLine_eq (line : List Char) : ∃ head body, HasHead line head body ∧
    ofLine line = head ++
      if body.isEmpty then (if line.isEmpty then [⟨.plain, []⟩] else []) else ofSource body := by
  by_cases hslash : line.head? = some '/'
  · obtain ⟨rest, rfl⟩ := List.head?_eq_some_iff.mp hslash
    by_cases hspace : ' ' ∈ rest
    · obtain ⟨name, body, rfl, hname⟩ := List.eq_append_cons_of_mem hspace
      have hhead : (name ++ ' ' :: body).takeWhile (· != ' ') = name := by
        rw [takeWhile_name hname]
        simp
      refine ⟨[⟨.command, '/' :: name⟩, ⟨.plain, [' ']⟩], body,
        .command hname rfl rfl rfl rfl, ?_⟩
      simp [ofLine, hhead, Fragment.unstyled]
    · have hhead : rest.takeWhile (· != ' ') = rest := by
        simpa using takeWhile_name hspace []
      refine ⟨[⟨.command, '/' :: rest⟩], [], .name hspace rfl rfl, ?_⟩
      simp [ofLine, hhead, Fragment.unstyled]
  · refine ⟨[], line, .source hslash, ?_⟩
    cases line <;> simp_all [ofLine]

/-- What the fragments of a text are: its tokens, or the whole text where it has none. -/
structure Colours (body : List Char) (fs : List Fragment) : Prop where
  tokens : ∀ ts p, tokenize (String.ofList body) = .ok (ts ++ [.stop p]) → Shows [] ts fs
  plain : ∀ e, tokenize (String.ofList body) = .error e →
    ∃ f, fs = [f] ∧ f.text = body ∧ f.highlight.style = ""

theorem colours_ofSource (body : List Char) : Colours body (ofSource body) where
  tokens _ _ h := shows_ofSource h
  plain _ h := by
    rw [ofSource, h]
    exact ⟨_, rfl, rfl, rfl⟩

theorem tokenize_nil : tokenize (String.ofList []) = .ok [.stop .start] := rfl

theorem colours_nil (h : Shows [] [] fs) : Colours [] fs where
  tokens us p hus := by
    rw [tokenize_nil, Except.ok.injEq] at hus
    cases us with
    | nil => exact h
    | cons u us => simp at hus
  plain _ h := by cases h

theorem HasHead.written_append {head : List Fragment} {body : List Char}
    (h : HasHead line head body) : written head ++ body = line := by
  cases h with
  | source => simp [written]
  | command _ hname _ hspace => simp [written, hname, hspace]
  | name _ hname => simp [written, hname]

theorem HasHead.ne_nil {head : List Fragment} {body : List Char} (h : HasHead line head body) :
    ∀ f ∈ head, f.text ≠ [] := by
  cases h with
  | source => simp
  | command _ hname _ hspace => simp [hname, hspace]
  | name _ hname => simp [hname]

/-- The fragments of a line make up the line. Behind the name of a command they are the tokens of
the text, each at its place in the style of its group, and blanks without a style; a text that
cannot be read is one plain fragment. No fragment is empty, unless the line is. -/
theorem ofLine_shows (line : List Char) :
    written (ofLine line) = line ∧
    (line ≠ [] → ∀ f ∈ ofLine line, f.text ≠ []) ∧
    ∃ head body fs, HasHead line head body ∧ ofLine line = head ++ fs ∧ Colours body fs := by
  obtain ⟨head, body, h, heq⟩ := exists_ofLine_eq line
  rw [heq]
  cases body with
  | cons c body =>
      refine ⟨?_, fun _ => ?_, head, c :: body, _, h, rfl, colours_ofSource _⟩
      · rw [written_append]
        exact (congrArg _ (written_ofSource _)).trans h.written_append
      · rw [List.forall_mem_append]
        exact ⟨h.ne_nil, fun f => ne_nil_of_mem_ofSource (by simp)⟩
  | nil =>
      have hline := h.written_append
      rw [List.append_nil] at hline
      by_cases hempty : line = []
      · subst hempty
        have hblank : Shows [] [] [⟨.plain, []⟩] := .blank rfl (by simp) .done
        refine ⟨?_, fun hne => absurd rfl hne, head, [], _, h, rfl, colours_nil hblank⟩
        simpa [written] using hline
      · simp only [List.isEmpty_nil, List.isEmpty_iff, hempty, if_true, if_false, List.append_nil]
        exact ⟨hline, fun _ => h.ne_nil, head, [], [], h, (List.append_nil _).symm,
          colours_nil .done⟩

end Fragment

end StringLambda
