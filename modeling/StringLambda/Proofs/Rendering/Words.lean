import StringLambda.Proofs.Forms.Arrow
import StringLambda.Proofs.Rendering.Data

namespace StringLambda

/-! The words that spelled data read as. A numeral ends in front of what may stand behind an item,
and a minus sign in front of the digits of a numeral. -/

variable {more : List Char} {c : Char}

theorem reads_number {ds : List Char} (hds : AreDigits ds) (hmore : numberLength (c :: more) = 0)
    (hc : opensWord c = false) : Reads .number ds (ds ++ c :: more) := by
  have hlexeme : Lexeme .number ds := by
    simpa only [List.append_nil] using Lexeme.number (.parts hds .missing .missing)
  have hlength : numberLength (ds ++ c :: more) = ds.length := by
    rw [numberLength_append hds.2, hmore, Nat.add_zero]
  refine ⟨hlexeme, List.prefix_append _ _, fun k v hv hpre => ?_, fun _ d hpre => ?_⟩
  · obtain ⟨d, es, rfl⟩ := List.exists_cons_of_ne_nil hds.1
    rw [← hlength]
    exact longest_number (hds.2 d List.mem_cons_self) hv hpre
  · rw [List.prefix_append_right_inj, List.cons_prefix_cons] at hpre
    rw [hpre.1]
    exact hc

theorem reads_operator_of_pair {kind : Kind} {d : Char} (hop : ([c], kind) ∈ operators)
    (hpair : ∀ w ∈ operators.map Prod.fst, ¬ [c, d] <+: w) :
    Reads kind [c] (c :: d :: more) := by
  refine reads_operator_of_prefix hop fun v hv hpre => ?_
  cases v with
  | nil => rfl
  | cons e v =>
      rw [List.cons_prefix_cons, List.cons_prefix_cons] at hpre
      exact absurd ⟨v, by rw [hpre.2.1]; rfl⟩ (hpair _ hv)

theorem isAsciiDigit_digitChar : ∀ d < 10, Text.isAsciiDigit (digitChar d) = true := by decide

theorem areDigits_digits (n : Nat) : AreDigits (digits 10 n) := by
  rw [digits_eq_map (by decide)]
  refine ⟨mt List.map_eq_nil_iff.mp (digitPlaces_ne_nil 10 n), fun c hc => ?_⟩
  obtain ⟨d, hd, rfl⟩ := List.mem_map.mp hc
  exact isAsciiDigit_digitChar d (digitPlaces_lt (by decide) hd)

def digitsWord (n : Nat) : Kind × String :=
  (.number, String.ofList (digits 10 n))

def intWords (i : Int) : List (Kind × String) :=
  if i < 0 then [(.minus, "-"), digitsWord i.natAbs] else [digitsWord i.natAbs]

theorem hasWords_intText (i : Int) (hmore : numberLength (c :: more) = 0)
    (hc : opensWord c = false) : HasWords (intText i).toList (c :: more) (intWords i) := by
  have hdigits : HasWords (digits 10 i.natAbs) (c :: more) [digitsWord i.natAbs] :=
    .lexeme (reads_number (areDigits_digits _) hmore hc)
  rw [toList_intText, intWords]
  split
  next =>
    have hpair : ∀ d < 10, ∀ w ∈ operators.map Prod.fst, ¬ ['-', digitChar d] <+: w := by decide
    have hminus : HasWords ['-'] (digits 10 i.natAbs ++ c :: more) [(.minus, "-")] := by
      obtain ⟨d, ds, hplaces⟩ := List.exists_cons_of_ne_nil (digitPlaces_ne_nil 10 i.natAbs)
      have hd : d < 10 := digitPlaces_lt (by decide) (hplaces ▸ List.mem_cons_self)
      rw [digits_eq_map (by decide), hplaces]
      exact .lexeme (reads_operator_of_pair (by decide) (hpair d hd))
    exact .cons hminus hdigits
  next => exact hdigits

namespace Datum

mutual

def words : Datum → List (Kind × String)
  | int i => intWords i
  | text s => [(.string, Text.quoted s)]
  | list ds => (.lsqb, "[") :: (wordsAll ds ++ [(.rsqb, "]")])

def wordsAll : List Datum → List (Kind × String)
  | [] => []
  | [d] => d.words
  | d :: e :: ds => d.words ++ (.comma, ",") :: wordsAll (e :: ds)

end

theorem hasWords_list {ds : List Datum} (more : List Char)
    (hds : HasWords (", ".intercalate (spelledAll ds)).toList (']' :: more) (wordsAll ds)) :
    HasWords (list ds).spelled.toList more (list ds).words := by
  have htext : (list ds).spelled.toList =
      ['['] ++ ((", ".intercalate (spelledAll ds)).toList ++ [']']) := by
    simp [spelled, String.toList_append]
  rw [htext, words]
  refine .cons (.single (by decide) (by decide)) (.append ?_ (.single (by decide) (by decide)))
  exact hds

mutual

theorem hasWords_spelled (d : Datum) {more : List Char} {c : Char} (hc : c = ',' ∨ c = ']') :
    HasWords d.spelled.toList (c :: more) d.words := by
  cases d with
  | int i =>
      rcases hc with rfl | rfl <;> exact hasWords_intText i rfl (by decide)
  | text s =>
      have h : HasWords (Text.quoted s).toList (c :: more) _ := .string (lexeme_quoted s)
      rwa [String.ofList_toList] at h
  | list ds => exact hasWords_list _ (hasWords_spelledAll ds _)
termination_by sizeOf d

theorem hasWords_spelledAll (ds : List Datum) (more : List Char) :
    HasWords (", ".intercalate (spelledAll ds)).toList (']' :: more) (wordsAll ds) := by
  match ds with
  | [] => exact .nil
  | [d] =>
      have h : HasWords d.spelled.toList (']' :: more) d.words := hasWords_spelled d (.inr rfl)
      exact h
  | d :: e :: ds =>
      rw [spelledAll, spelledAll, intercalate_cons_cons, ← spelledAll, wordsAll]
      exact .append (hasWords_spelled d (.inl rfl)) (.comma (hasWords_spelledAll (e :: ds) more))
termination_by sizeOf ds

end

end Datum

end StringLambda
