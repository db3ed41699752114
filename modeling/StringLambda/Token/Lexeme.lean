import StringLambda.Token.Lexer

namespace StringLambda

open Text

/-! Lexemes, apart from the way they are found: what a lexeme is, which one a text begins with, and
how lexemes and separators make up a text. -/

/-- A string literal without its opening quote: no character closes it before its last one, since a
backslash takes the next character with it. -/
inductive StringBody (quote : Char) : List Char → Prop where
  | close : StringBody quote [quote]
  | escape {c : Char} {w : List Char} : StringBody quote w → StringBody quote ('\\' :: c :: w)
  | plain {c : Char} {w : List Char} :
      c ≠ quote → c ≠ '\\' → StringBody quote w → StringBody quote (c :: w)

def AreDigits (w : List Char) : Prop :=
  w ≠ [] ∧ ∀ c ∈ w, isAsciiDigit c = true

inductive Fraction : List Char → Prop where
  | missing : Fraction []
  | point {ds : List Char} : AreDigits ds → Fraction ('.' :: ds)

inductive Exponent : List Char → Prop where
  | missing : Exponent []
  | unsigned {e : Char} {ds : List Char} : e = 'e' ∨ e = 'E' → AreDigits ds → Exponent (e :: ds)
  | signed {e sign : Char} {ds : List Char} :
      e = 'e' ∨ e = 'E' → sign = '+' ∨ sign = '-' → AreDigits ds → Exponent (e :: sign :: ds)

inductive Numeral : List Char → Prop where
  | parts {whole fraction exponent : List Char} :
      AreDigits whole → Fraction fraction → Exponent exponent →
      Numeral (whole ++ (fraction ++ exponent))

inductive Lexeme : Kind → List Char → Prop where
  | string {quote : Char} {w : List Char} :
      isQuote quote = true → StringBody quote w → Lexeme .string (quote :: w)
  | number {w : List Char} : Numeral w → Lexeme .number w
  | word {c : Char} {w : List Char} :
      opensWord c = true → (∀ d ∈ w, isWordChar d = true) →
      Lexeme (wordKind (String.ofList (c :: w))) (c :: w)
  | operator {kind : Kind} {w : List Char} : (w, kind) ∈ operators → Lexeme kind w

/-- A text begins with a lexeme, which is the longest one that it begins with; no letter and no
underscore may run into a number. -/
structure Reads (kind : Kind) (w text : List Char) : Prop where
  lexeme : Lexeme kind w
  begins : w <+: text
  longest : ∀ k v, Lexeme k v → v <+: text → v.length ≤ w.length
  ends : kind = .number → ∀ c, w ++ [c] <+: text → opensWord c = false

/-- A text is made of lexemes, of which the tokens tell kind, spelling and place, of separators
around them, and of a rest. The places are those behind what comes before. -/
inductive Lexes : List Char → List Char → List Token → List Char → Prop where
  | done {before rest : List Char} : Lexes before rest [] rest
  | separator {before text rest : List Char} {c : Char} {ts : List Token} :
      isSeparator c = true → Lexes (before ++ [c]) text ts rest →
      Lexes before (c :: text) ts rest
  | lexeme {before w text rest : List Char} {kind : Kind} {ts : List Token} :
      Reads kind w (w ++ text) → Lexes (before ++ w) text ts rest →
      Lexes before (w ++ text) (⟨kind, String.ofList w, .behind before⟩ :: ts) rest

/-- What an issue says of the text that no lexeme can be read from. -/
inductive LexIssue.Describes : LexIssue → List Char → Prop where
  | unterminatedString {quote : Char} {text : List Char} :
      isQuote quote = true → (∀ w, StringBody quote w → ¬ w <+: text) →
      Describes .unterminatedString (quote :: text)
  | invalidNumber {w text : List Char} {c : Char} :
      Lexeme .number w → (∀ k v, Lexeme k v → v <+: w ++ c :: text → v.length ≤ w.length) →
      opensWord c = true →
      Describes (.invalidNumber (String.ofList (w ++ [c]))) (w ++ c :: text)
  | unexpectedCharacter {c : Char} {text : List Char} :
      (∀ k w, Lexeme k w → ¬ w <+: c :: text) → Describes (.unexpectedCharacter c) (c :: text)

theorem opensWord_of_isAsciiDigit {c : Char} (h : isAsciiDigit c = true) :
    opensWord c = false := by
  simp only [isAsciiDigit, Bool.and_eq_true, decide_eq_true_eq, Char.le_def,
    UInt32.le_iff_toNat_le] at h
  have hne : c ≠ '_' := by
    rintro rfl
    exact absurd h.2 (by decide)
  have hnat : c.toNat < 128 := Nat.lt_of_le_of_lt h.2 (by decide)
  have hlow : ¬ ('a' ≤ c) := by
    intro hc
    exact absurd (Nat.le_trans (UInt32.le_iff_toNat_le.mp (Char.le_def.mp hc)) h.2) (by decide)
  have hup : ¬ ('A' ≤ c) := by
    intro hc
    exact absurd (Nat.le_trans (UInt32.le_iff_toNat_le.mp (Char.le_def.mp hc)) h.2) (by decide)
  simp [opensWord, isLetter, isAsciiLetter, hnat, hlow, hup, hne]

theorem eq_of_isQuote {c : Char} (h : isQuote c = true) : c = '"' ∨ c = '\'' := by
  simpa [isQuote] using h

theorem isAsciiDigit_of_isQuote {c : Char} (h : isQuote c = true) : isAsciiDigit c = false := by
  rcases eq_of_isQuote h with rfl | rfl <;> rfl

theorem opensWord_of_isQuote {c : Char} (h : isQuote c = true) : opensWord c = false := by
  rcases eq_of_isQuote h with rfl | rfl <;> rfl

theorem ne_backslash_of_isQuote {c : Char} (h : isQuote c = true) : c ≠ '\\' := by
  rcases eq_of_isQuote h with rfl | rfl <;> decide

theorem isWordChar_of_opensWord {c : Char} (h : opensWord c = true) : isWordChar c = true := by
  simp only [opensWord, Bool.or_eq_true] at h
  rcases h with h | h
  · simp [isWordChar, isLetterOrNumeral, h]
  · simp [isWordChar, h]

theorem exists_cons_of_mem_operators {kind : Kind} {w : List Char} (h : (w, kind) ∈ operators) :
    ∃ c v, w = c :: v ∧ isQuote c = false ∧ isAsciiDigit c = false ∧ opensWord c = false := by
  have hall : ∀ e ∈ operators, e.1.head?.any
      (fun c => !isQuote c && !isAsciiDigit c && !opensWord c) = true := by
    decide
  have hw := hall _ h
  cases w with
  | nil => cases hw
  | cons c v => exact ⟨c, v, rfl, by simpa [and_assoc] using hw⟩

theorem eq_of_mem_operators {k kind : Kind} {w : List Char} (h : (w, k) ∈ operators)
    (h' : (w, kind) ∈ operators) : k = kind := by
  have hall : ∀ a ∈ operators, ∀ b ∈ operators, a.1 = b.1 → a.2 = b.2 := by
    decide
  exact hall _ h _ h' rfl

theorem Numeral.exists_cons {w : List Char} (h : Numeral w) :
    ∃ c v, w = c :: v ∧ isAsciiDigit c = true := by
  cases h with
  | @parts whole _ _ hw _ _ =>
      cases whole with
      | nil => exact absurd rfl hw.1
      | cons c whole => exact ⟨c, _, rfl, hw.2 c (by simp)⟩

namespace Lexeme

variable {kind : Kind} {c : Char} {w : List Char}

theorem exists_cons (h : Lexeme kind w) : ∃ c v, w = c :: v := by
  cases h with
  | string | word => exact ⟨_, _, rfl⟩
  | number hn =>
      obtain ⟨c, v, rfl, -⟩ := hn.exists_cons
      exact ⟨c, v, rfl⟩
  | operator ho =>
      obtain ⟨c, v, rfl, -⟩ := exists_cons_of_mem_operators ho
      exact ⟨c, v, rfl⟩

theorem of_cons (h : Lexeme kind (c :: w)) :
    (isQuote c = true ∧ kind = .string ∧ StringBody c w) ∨
    (isAsciiDigit c = true ∧ kind = .number ∧ Numeral (c :: w)) ∨
    (opensWord c = true ∧ kind = wordKind (String.ofList (c :: w)) ∧
      ∀ d ∈ w, isWordChar d = true) ∨
    (isQuote c = false ∧ isAsciiDigit c = false ∧ opensWord c = false ∧
      (c :: w, kind) ∈ operators) := by
  generalize htext : c :: w = text at h
  cases h with
  | string hq hb =>
      cases htext
      exact .inl ⟨hq, rfl, hb⟩
  | number hn =>
      subst htext
      obtain ⟨d, v, heq, hd⟩ := hn.exists_cons
      cases heq
      exact .inr (.inl ⟨hd, rfl, hn⟩)
  | word hc hw =>
      cases htext
      exact .inr (.inr (.inl ⟨hc, rfl, hw⟩))
  | operator ho =>
      subst htext
      obtain ⟨d, v, heq, hq, hd, hl⟩ := exists_cons_of_mem_operators ho
      cases heq
      exact .inr (.inr (.inr ⟨hq, hd, hl, ho⟩))

theorem of_isQuote (hc : isQuote c = true) (h : Lexeme kind (c :: w)) :
    kind = .string ∧ StringBody c w := by
  rcases h.of_cons with h | ⟨hd, _⟩ | ⟨hl, _⟩ | ⟨hq, _⟩
  · exact h.2
  · simp [isAsciiDigit_of_isQuote hc] at hd
  · simp [opensWord_of_isQuote hc] at hl
  · simp [hc] at hq

theorem of_isAsciiDigit (hc : isAsciiDigit c = true) (h : Lexeme kind (c :: w)) :
    kind = .number ∧ Numeral (c :: w) := by
  rcases h.of_cons with ⟨hq, _⟩ | h | ⟨hl, _⟩ | ⟨_, hd, _⟩
  · simp [isAsciiDigit_of_isQuote hq] at hc
  · exact h.2
  · simp [opensWord_of_isAsciiDigit hc] at hl
  · simp [hc] at hd

theorem of_opensWord (hc : opensWord c = true) (h : Lexeme kind (c :: w)) :
    kind = wordKind (String.ofList (c :: w)) ∧ ∀ d ∈ w, isWordChar d = true := by
  rcases h.of_cons with ⟨hq, _⟩ | ⟨hd, _⟩ | h | ⟨_, _, hl, _⟩
  · simp [opensWord_of_isQuote hq] at hc
  · simp [opensWord_of_isAsciiDigit hd] at hc
  · exact h.2
  · simp [hc] at hl

theorem mem_operators (hq : isQuote c = false) (hd : isAsciiDigit c = false)
    (hl : opensWord c = false) (h : Lexeme kind (c :: w)) : (c :: w, kind) ∈ operators := by
  rcases h.of_cons with ⟨hq', _⟩ | ⟨hd', _⟩ | ⟨hl', _⟩ | h
  · simp [hq] at hq'
  · simp [hd] at hd'
  · simp [hl] at hl'
  · exact h.2.2.2

theorem kind_eq {k : Kind} (h : Lexeme kind w) (h' : Lexeme k w) : kind = k := by
  obtain ⟨c, w, rfl⟩ := h.exists_cons
  rcases h.of_cons with ⟨hc, hk, -⟩ | ⟨hc, hk, -⟩ | ⟨hc, hk, -⟩ | ⟨hq, hd, hl, ho⟩
  · rw [hk, (h'.of_isQuote hc).1]
  · rw [hk, (h'.of_isAsciiDigit hc).1]
  · rw [hk, (h'.of_opensWord hc).1]
  · exact eq_of_mem_operators ho (h'.mem_operators hq hd hl)

end Lexeme

theorem Reads.unique {kind k : Kind} {w v text : List Char} (h : Reads kind w text)
    (h' : Reads k v text) : w = v ∧ kind = k := by
  have hwv : w = v := (List.prefix_of_prefix_length_le h.begins h'.begins
    (h'.longest _ _ h.lexeme h.begins)).eq_of_length_le (h.longest _ _ h'.lexeme h'.begins)
  subst hwv
  exact ⟨rfl, h.lexeme.kind_eq h'.lexeme⟩

theorem classes_of_isSeparator {c : Char} (h : isSeparator c = true) :
    isQuote c = false ∧ isAsciiDigit c = false ∧ opensWord c = false ∧ isWordChar c = false := by
  have hchar : c = ' ' ∨ c = '\t' ∨ c = '\n' ∨ c = '\r' := by
    simpa [isSeparator, or_assoc] using h
  rcases hchar with rfl | rfl | rfl | rfl <;> decide

theorem not_isSeparator_of_mem_operators {kind : Kind} {w : List Char}
    (h : (w, kind) ∈ operators) : ∀ c ∈ w, isSeparator c = false := by
  have hall : ∀ e ∈ operators, e.1.all (fun c => !isSeparator c) = true := by decide
  intro c hc
  simpa using List.all_eq_true.mp (hall _ h) c hc

theorem Lexeme.not_isSeparator {kind : Kind} {c : Char} {w : List Char}
    (h : Lexeme kind (c :: w)) : isSeparator c = false := by
  cases hc : isSeparator c with
  | false => rfl
  | true =>
      obtain ⟨hq, hd, hl, -⟩ := classes_of_isSeparator hc
      have hw := not_isSeparator_of_mem_operators (h.mem_operators hq hd hl) c (by simp)
      rw [hc] at hw
      cases hw

theorem LexIssue.Describes.not_reads {issue : LexIssue} {text : List Char}
    (h : issue.Describes text) (kind : Kind) (w : List Char) : ¬ Reads kind w text := by
  intro hr
  cases h with
  | unterminatedString hq hnone =>
      obtain ⟨c, v, rfl⟩ := hr.lexeme.exists_cons
      obtain ⟨rfl, hpre⟩ := List.cons_prefix_cons.mp hr.begins
      exact hnone v (hr.lexeme.of_isQuote hq).2 hpre
  | @invalidNumber v text c hn hlongest hc =>
      have hpre : v <+: v ++ c :: text := List.prefix_append _ _
      have heq := (List.prefix_of_prefix_length_le hpre hr.begins
        (hr.longest _ _ hn hpre)).eq_of_length_le (hlongest _ _ hr.lexeme hr.begins)
      subst heq
      have hends := hr.ends (hr.lexeme.kind_eq hn) _
        ((List.prefix_append_right_inj _).mpr (List.cons_prefix_cons.mpr ⟨rfl, List.nil_prefix⟩))
      rw [hc] at hends
      cases hends
  | unexpectedCharacter hnone => exact hnone kind w hr.lexeme hr.begins

end StringLambda
