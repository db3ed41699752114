import StringLambda.Proofs.Numerals
import StringLambda.Proofs.Spelling

namespace StringLambda

open Text

/-! A text in quotes is a string literal. The escapes that it is written with are those of literals,
up to the codes that take more than four digits: no literal has these. -/

def InBasicPlane (cs : List Char) : Prop :=
  ∀ c ∈ cs, c.toNat ≤ 0xffff

section

variable {width code : Nat}

/-- The values of the digits of a code, filled up with zeros in front. -/
def codePlaces (width code : Nat) : List Nat :=
  List.replicate (width - (digitPlaces 16 code).length) 0 ++ digitPlaces 16 code

theorem hexCode_eq_map (width code : Nat) :
    hexCode width code = (codePlaces width code).map digitChar := by
  have hzero : digitChar 0 = '0' := by decide
  simp [hexCode, codePlaces, digits_eq_map, hzero]

theorem codePlaces_lt {d : Nat} (hd : d ∈ codePlaces width code) : d < 16 := by
  rcases List.mem_append.mp hd with hd | hd
  · rw [List.eq_of_mem_replicate hd]
    decide
  · exact digitPlaces_lt (by decide) hd

theorem length_codePlaces (hwidth : 0 < width) (h : code < 16 ^ width) :
    (codePlaces width code).length = width := by
  have hle : (digitPlaces 16 code).length ≤ width := by
    rw [digitPlaces]
    split
    next => exact hwidth
    next => simpa using (Nat.digits_length_le_iff (by decide) code).mpr h
  simp only [codePlaces, List.length_append, List.length_replicate]
  omega

theorem digitsValue_codePlaces (width code : Nat) :
    digitsValue 16 0 (codePlaces width code) = code := by
  have hzeros (k : Nat) (ds : List Nat) :
      digitsValue 16 0 (List.replicate k 0 ++ ds) = digitsValue 16 0 ds := by
    induction k with
    | zero => rfl
    | succ k ih => rwa [List.replicate_succ, List.cons_append, digitsValue, Nat.zero_mul]
  rw [codePlaces, hzeros, digitsValue_digitPlaces]

theorem filterMap_digitValue? {ds : List Nat} (hds : ∀ d ∈ ds, d < 36) :
    (ds.map digitChar).filterMap digitValue? = ds := by
  induction ds with
  | nil => rfl
  | cons d ds ih =>
      rw [List.forall_mem_cons] at hds
      rw [List.map_cons, List.filterMap_cons_some (digitValue?_digitChar d hds.1), ih hds.2]

theorem hexChar?_hexCode (hwidth : 0 < width) (h : code < 16 ^ width) (rest : List Char) :
    hexChar? width (hexCode width code ++ rest) = some (Char.ofNat code) := by
  have hlength := length_codePlaces hwidth h
  have htake : (hexCode width code ++ rest).take width = hexCode width code :=
    List.take_left' (by rw [hexCode_eq_map, List.length_map, hlength])
  have hvalues : (hexCode width code).filterMap digitValue? = codePlaces width code := by
    rw [hexCode_eq_map]
    exact filterMap_digitValue? fun d hd => Nat.lt_trans (codePlaces_lt hd) (by decide)
  have hall : (codePlaces width code).all (· < 16) = true :=
    List.all_eq_true.mpr fun d hd => decide_eq_true (codePlaces_lt hd)
  simp only [hexChar?, htake, hvalues, hlength, hall, and_true, digitsValue_codePlaces]
  rw [if_pos (by rw [hexCode_eq_map, List.length_map, hlength])]

theorem length_hexCode (hwidth : 0 < width) (h : code < 16 ^ width) :
    (hexCode width code).length = width := by
  rw [hexCode_eq_map, List.length_map, length_codePlaces hwidth h]

end

/-- The letters that open a code in a literal, and how many digits follow them. -/
inductive IsCodeLetter : Char → Nat → Prop
  | short : IsCodeLetter 'x' 2
  | long : IsCodeLetter 'u' 4

section

variable {quote : Char} (hquote : isQuote quote = true)
include hquote

theorem stringBody_digits {body : List Char} (h : StringBody quote body) (width code : Nat) :
    StringBody quote (hexCode width code ++ body) := by
  have hplain : ∀ d < 16, digitChar d ≠ quote ∧ digitChar d ≠ '\\' := by
    rcases eq_of_isQuote hquote with rfl | rfl <;> decide
  rw [hexCode_eq_map]
  have hall : ∀ d ∈ codePlaces width code, d < 16 := fun d hd => codePlaces_lt hd
  generalize codePlaces width code = ds at hall ⊢
  induction ds with
  | nil => exact h
  | cons d ds ih =>
      rw [List.forall_mem_cons] at hall
      obtain ⟨hne, hbackslash⟩ := hplain d hall.1
      exact .plain hne hbackslash (ih hall.2)

/-- A character in quotes stands for itself, behind a backslash or as its code. The codes of the
first plane are such as literals have. -/
theorem quotedChar_cases (c : Char) :
    (quotedChar quote c = [c] ∧ c ≠ quote ∧ c ≠ '\\') ∨
    (∃ e, quotedChar quote c = ['\\', e] ∧ e ≠ 'u' ∧ e ≠ 'x' ∧ escapedChar e = c) ∨
    ∃ letter width, quotedChar quote c = '\\' :: letter :: hexCode width c.toNat ∧
      (c.toNat ≤ 0xffff → IsCodeLetter letter width ∧ c.toNat < 16 ^ width) := by
  unfold quotedChar
  split
  next hc =>
    refine .inr (.inl ⟨c, rfl, ?_⟩)
    rcases hc with rfl | rfl
    · rcases eq_of_isQuote hquote with rfl | rfl <;> decide
    · decide
  next hc =>
    split
    next hc => exact .inr (.inl ⟨'n', rfl, by decide, by decide, hc ▸ rfl⟩)
    split
    next hc => exact .inr (.inl ⟨'r', rfl, by decide, by decide, hc ▸ rfl⟩)
    split
    next hc => exact .inr (.inl ⟨'t', rfl, by decide, by decide, hc ▸ rfl⟩)
    split
    next => exact .inl ⟨rfl, not_or.mp hc⟩
    split
    next hcode => exact .inr (.inr ⟨'x', 2, rfl, fun _ => ⟨.short, Nat.lt_succ_of_le hcode⟩⟩)
    split
    next hcode => exact .inr (.inr ⟨'u', 4, rfl, fun _ => ⟨.long, Nat.lt_succ_of_le hcode⟩⟩)
    next hcode => exact .inr (.inr ⟨'U', 8, rfl, fun hplane => absurd hplane hcode⟩)

theorem stringBody_quoted (cs : List Char) :
    StringBody quote (cs.flatMap (quotedChar quote) ++ [quote]) := by
  induction cs with
  | nil => exact .close
  | cons c cs ih =>
      rw [List.flatMap_cons, List.append_assoc]
      rcases quotedChar_cases hquote c with ⟨h, hne, hbackslash⟩ | ⟨e, h, -⟩ | ⟨letter, width, h, -⟩
      · rw [h]
        exact .plain hne hbackslash ih
      · rw [h]
        exact .escape ih
      · rw [h]
        exact .escape (stringBody_digits hquote ih width c.toNat)

end

theorem isQuote_chooseQuote (cs : List Char) : isQuote (chooseQuote cs) = true := by
  unfold chooseQuote
  split <;> rfl

theorem lexeme_quoted (s : String) : Lexeme .string (quoted s).toList := by
  rw [quoted, String.toList_ofList]
  exact .string (isQuote_chooseQuote _) (stringBody_quoted (isQuote_chooseQuote _) _)

theorem unescapeFrom_drop (skip : Nat) (cs : List Char) :
    unescapeFrom skip cs = unescapeFrom 0 (cs.drop skip) := by
  induction cs generalizing skip with
  | nil => simp [unescapeFrom]
  | cons c cs ih =>
      cases skip with
      | zero => rfl
      | succ skip => rw [unescapeFrom, ih, List.drop_succ_cons]

theorem unescapeFrom_code {letter : Char} {width code : Nat} (hletter : IsCodeLetter letter width)
    (hcode : code < 16 ^ width) (rest : List Char) :
    unescapeFrom 0 ('\\' :: letter :: (hexCode width code ++ rest)) =
      Char.ofNat code :: unescapeFrom 0 rest := by
  cases hletter with
  | short =>
      have hrest : ('x' :: (hexCode 2 code ++ rest)).drop 3 = rest :=
        List.drop_left' (length_hexCode (by decide) hcode)
      have hchar : hexChar? 2 (hexCode 2 code ++ rest) = some (Char.ofNat code) :=
        hexChar?_hexCode (by decide) hcode rest
      rw [unescapeFrom, if_neg (by simp)]
      simp [hchar, unescapeFrom_drop 3, hrest]
  | long =>
      have hrest : ('u' :: (hexCode 4 code ++ rest)).drop 5 = rest :=
        List.drop_left' (length_hexCode (by decide) hcode)
      have hchar : hexChar? 4 (hexCode 4 code ++ rest) = some (Char.ofNat code) :=
        hexChar?_hexCode (by decide) hcode rest
      rw [unescapeFrom, if_neg (by simp)]
      simp [hchar, unescapeFrom_drop 5, hrest]

theorem unescapeFrom_quoted {quote : Char} (hquote : isQuote quote = true) {cs : List Char}
    (hcs : InBasicPlane cs) : unescapeFrom 0 (cs.flatMap (quotedChar quote)) = cs := by
  induction cs with
  | nil => rfl
  | cons c cs ih =>
      rw [InBasicPlane, List.forall_mem_cons] at hcs
      rw [List.flatMap_cons]
      rcases quotedChar_cases hquote c with ⟨h, -, hbackslash⟩ | ⟨e, h, hu, hx, he⟩ |
        ⟨letter, width, h, hcode⟩
      · simp [h, unescapeFrom, hbackslash, ih hcs.2]
      · simp [h, unescapeFrom, hu, hx, he, ih hcs.2]
      · obtain ⟨hletter, hlt⟩ := hcode hcs.1
        rw [h, List.cons_append, List.cons_append, unescapeFrom_code hletter hlt, ih hcs.2,
          Char.ofNat_toNat]

theorem stringValue_quoted {s : String} (hs : InBasicPlane s.toList) :
    stringValue (quoted s) = s := by
  have hquote := isQuote_chooseQuote s.toList
  rw [stringValue, quoted, String.toList_ofList, quotedChars, unquote_between _ hquote,
    unescapeFrom_quoted hquote hs, String.ofList_toList]

/-- A code of eight digits is no escape of a literal. -/
example : stringValue "'\\U000e0001'" = "U000e0001" := by decide

end StringLambda
