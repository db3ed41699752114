import StringLambda.Call
import Mathlib.Data.List.TakeWhile
import Mathlib.Data.Nat.Digits.Lemmas

namespace StringLambda

/-! Integers in a radix. What is written is a numeral without needless characters, which denotes the
integer. It reads as the integer again if the radix is a power of two or the numeral keeps to the
limit on digits; of any other only the digits up to the limit are read. -/

def digitAlphabet : List Char :=
  "0123456789abcdefghijklmnopqrstuvwxyz".toList

theorem digitAlphabet_getElem? : ∀ d < 36, digitAlphabet[d]? = some (digitChar d) := by decide

theorem digitValue?_digitChar : ∀ d < 36, digitValue? (digitChar d) = some d := by decide

theorem plainDigit_digitChar : ∀ d < 36, Text.plainDigit (digitChar d) = digitChar d := by decide

theorem isOuterBlank_digitChar : ∀ d < 36, Number.isOuterBlank (digitChar d) = false := by decide

theorem isBlank_digitChar : ∀ d < 36, Text.isBlank (digitChar d) = false := by decide

theorem digitChar_notMem_marks : ∀ d < 36, digitChar d ∉ ['-', '+', '_'] := by decide

theorem digitChar_eq_zero_iff : ∀ d < 36, digitChar d = '0' ↔ d = 0 := by decide

theorem digitLimit_eq : digitLimit = 4300 := rfl

theorem isReadable_iff {radix count : Nat} :
    isReadable radix count = true ↔ radix ∈ [2, 4, 8, 16, 32] ∨ count ≤ digitLimit := by
  simp only [isReadable, Bool.or_eq_true, decide_eq_true_eq, List.contains_iff_mem, or_comm]

/-- The values of the digits of a number, the first one in front; zero has one digit. -/
def digitPlaces (radix n : Nat) : List Nat :=
  if n = 0 then [0] else (Nat.digits radix n).reverse

section

variable {radix n : Nat} (hradix : 2 ≤ radix)
include hradix

theorem reversedDigits_eq_map {fuel : Nat} (hn : n ≠ 0) (hfuel : n < 2 ^ fuel) :
    reversedDigits radix fuel n = (Nat.digits radix n).map digitChar := by
  induction fuel generalizing n with
  | zero => omega
  | succ fuel ih =>
      rw [reversedDigits]
      split
      next hlt => rw [Nat.digits_of_lt radix n hn hlt, List.map_singleton]
      next hle =>
        have hquotient : n / radix ≠ 0 := Nat.div_ne_zero_iff.mpr ⟨by omega, by omega⟩
        have hhalf : n / radix < 2 ^ fuel := by
          have hle : n / radix ≤ n / 2 := Nat.div_le_div_left hradix (by omega)
          rw [Nat.pow_succ] at hfuel
          omega
        rw [Nat.digits_def' (by omega) (Nat.pos_of_ne_zero hn), List.map_cons, ih hquotient hhalf]

theorem digits_eq_map : digits radix n = (digitPlaces radix n).map digitChar := by
  rw [digits, digitPlaces]
  split
  next hzero =>
    rw [hzero, reversedDigits, if_pos (by omega)]
    rfl
  next hn => rw [reversedDigits_eq_map hradix hn Nat.lt_log2_self, List.map_reverse]

theorem digitPlaces_lt {d : Nat} (hd : d ∈ digitPlaces radix n) : d < radix := by
  rw [digitPlaces] at hd
  split at hd
  next =>
    rw [List.mem_singleton] at hd
    omega
  next => exact Nat.digits_lt_base (by omega) (List.mem_reverse.mp hd)

end

theorem digitPlaces_ne_nil (radix n : Nat) : digitPlaces radix n ≠ [] := by
  rw [digitPlaces]
  split
  next => exact List.cons_ne_nil 0 []
  next hn => exact mt List.reverse_eq_nil_iff.mp (Nat.digits_ne_nil_iff_ne_zero.mpr hn)

theorem head?_digitPlaces (radix : Nat) {n : Nat} (hn : n ≠ 0) :
    (digitPlaces radix n).head? ≠ some 0 := by
  have hnil : Nat.digits radix n ≠ [] := Nat.digits_ne_nil_iff_ne_zero.mpr hn
  rw [digitPlaces, if_neg hn, List.head?_reverse, List.getLast?_eq_some_getLast hnil]
  exact fun hlast => Nat.getLast_digit_ne_zero radix hn (Option.some.inj hlast)

theorem digitPlaces_of_head? {radix n : Nat} (h : (digitPlaces radix n).head? = some 0) :
    digitPlaces radix n = [0] := by
  have hn : n = 0 := by_contra fun hn => head?_digitPlaces radix hn h
  rw [hn]
  rfl

theorem length_digitPlaces {radix n : Nat} :
    (digitPlaces radix n).length = max 1 (Nat.digits radix n).length := by
  rw [digitPlaces]
  split
  next hzero => simp [hzero]
  next hn =>
    have := List.length_pos_iff.mpr (Nat.digits_ne_nil_iff_ne_zero.mpr hn : Nat.digits radix n ≠ [])
    rw [List.length_reverse]
    omega

theorem digitsValue_eq_foldl (radix soFar : Nat) (ds : List Nat) :
    digitsValue radix soFar ds = ds.foldl (fun n d => n * radix + d) soFar := by
  induction ds generalizing soFar with
  | nil => rfl
  | cons d ds ih => exact ih _

theorem digitsValue_reverse (radix : Nat) (ds : List Nat) :
    digitsValue radix 0 ds.reverse = Nat.ofDigits radix ds := by
  rw [digitsValue_eq_foldl, List.foldl_reverse]
  induction ds with
  | nil => rfl
  | cons d ds ih => rw [List.foldr_cons, ih, Nat.ofDigits_cons, Nat.mul_comm, Nat.add_comm]

theorem digitsValue_digitPlaces (radix n : Nat) :
    digitsValue radix 0 (digitPlaces radix n) = n := by
  rw [digitPlaces]
  split
  next hzero =>
    rw [hzero, digitsValue, digitsValue]
    omega
  next => rw [digitsValue_reverse, Nat.ofDigits_digits]

theorem digitsValue_take_digitPlaces {radix n k : Nat} (hradix : 2 ≤ radix) (hk : k ≠ 0) :
    digitsValue radix 0 ((digitPlaces radix n).take k) =
      n / radix ^ ((digitPlaces radix n).length - k) := by
  rw [digitPlaces]
  split
  next hzero =>
    obtain ⟨k, rfl⟩ := Nat.exists_eq_succ_of_ne_zero hk
    simp [hzero, digitsValue]
  next hn =>
    rw [List.take_reverse, digitsValue_reverse, List.length_reverse,
      Nat.self_div_pow_eq_ofDigits_drop _ _ hradix]

namespace Number

open Text

theorem plainNumeral_eq_self {cs : List Char}
    (hblank : ∀ c ∈ cs, isOuterBlank c = false) (hplain : ∀ c ∈ cs, plainDigit c = c) :
    plainNumeral cs = cs := by
  have hkept {l : List Char} (hl : ∀ c ∈ l, isOuterBlank c = false) :
      l.dropWhile isOuterBlank = l :=
    List.dropWhile_eq_self_iff.mpr fun _ => by simp [hl _ (List.getElem_mem _)]
  have hback : ∀ c ∈ cs.reverse, isOuterBlank c = false := fun c hc =>
    hblank c (List.mem_reverse.mp hc)
  rw [plainNumeral, hkept hblank, hkept hback, List.reverse_reverse]
  exact (List.map_congr_left hplain).trans (List.map_id cs)

section

variable {radix : Nat} (hhigh : radix ≤ 36) {ds : List Nat}
  (hds : ∀ d ∈ ds, d < radix)
include hhigh hds

theorem groupedDigits?_map (hnil : ds ≠ []) :
    groupedDigits? radix (ds.map digitChar) = some ds := by
  induction ds with
  | nil => exact absurd rfl hnil
  | cons d ds ih =>
      rw [List.forall_mem_cons] at hds
      have hd : d < 36 := by omega
      have hnext : ds ≠ [] → groupedDigits? radix (ds.map digitChar) = some ds := ih hds.2
      simp only [List.map_cons, groupedDigits?, digitValue?_digitChar d hd,
        if_neg (Nat.not_le.mpr hds.1)]
      cases ds with
      | nil => rfl
      | cons e es =>
          have he : digitChar e ≠ '_' := fun heq =>
            digitChar_notMem_marks e (by have := hds.2 e List.mem_cons_self; omega) (by simp [heq])
          simp only [List.map_cons] at hnext ⊢
          split
          next h => cases h
          next h => exact absurd (List.cons.inj h).1 he
          next h => rw [hnext (List.cons_ne_nil e es)]; rfl

theorem map_digitChar_ne_marked (hzero : ds.head? = some 0 → ds = [0]) (letter : Char)
    (rest : List Char) : ds.map digitChar ≠ '0' :: letter :: rest := by
  intro h
  obtain ⟨d, es, rfl, hd, hes⟩ := List.map_eq_cons_iff.mp h
  have hdigit : d < 36 := by have := hds d List.mem_cons_self; omega
  rw [(digitChar_eq_zero_iff d hdigit).mp hd] at hzero
  rw [(List.cons.inj (hzero rfl)).2] at hes
  cases hes

theorem unsignedDigits?_map (hlow : 2 ≤ radix) (hnil : ds ≠ [])
    (hzero : ds.head? = some 0 → ds = [0]) :
    unsignedDigits? radix (ds.map digitChar) = some (radix, ds) := by
  have hradix : radix ≠ 0 := by omega
  rw [unsignedDigits?]
  · simp only [hradix, false_and, if_false, groupedDigits?_map hhigh hds hnil]
    rfl
  · exact map_digitChar_ne_marked hhigh hds hzero

end

def signedDigits (negative : Bool) (ds : List Nat) : List Char :=
  (if negative then ['-'] else []) ++ ds.map digitChar

def signedValue (radix : Nat) (negative : Bool) (ds : List Nat) : Int :=
  if negative then -(digitsValue radix 0 ds : Int) else digitsValue radix 0 ds

theorem length_signedDigits (negative : Bool) (ds : List Nat) :
    (signedDigits negative ds).length = (if negative then 1 else 0) + ds.length := by
  cases negative <;> simp [signedDigits, Nat.add_comm]

theorem take_signedDigits (negative : Bool) (ds : List Nat) (k : Nat) :
    (signedDigits negative ds).take ((if negative then 1 else 0) + k) =
      signedDigits negative (ds.take k) := by
  cases negative <;> simp [signedDigits, Nat.add_comm, List.map_take]

section

variable {radix : Nat} (hlow : 2 ≤ radix) (hhigh : radix ≤ 36) {ds : List Nat}
  (hds : ∀ d ∈ ds, d < radix) (hnil : ds ≠ []) (hzero : ds.head? = some 0 → ds = [0])
include hhigh hds

theorem mem_signedDigits {negative : Bool} {c : Char} (hc : c ∈ signedDigits negative ds) :
    c = '-' ∨ ∃ d < 36, c = digitChar d := by
  rw [signedDigits, List.mem_append] at hc
  rcases hc with hsign | hdigit
  · cases negative with
    | false => cases hsign
    | true => exact .inl (List.mem_singleton.mp hsign)
  · obtain ⟨d, hd, rfl⟩ := List.mem_map.mp hdigit
    exact .inr ⟨d, by have := hds d hd; omega, rfl⟩

theorem plainNumeral_signedDigits (negative : Bool) :
    plainNumeral (signedDigits negative ds) = signedDigits negative ds := by
  refine plainNumeral_eq_self (fun c hc => ?_) (fun c hc => ?_)
  · rcases mem_signedDigits hhigh hds hc with rfl | ⟨d, hd, rfl⟩
    · decide
    · exact isOuterBlank_digitChar d hd
  · rcases mem_signedDigits hhigh hds hc with rfl | ⟨d, hd, rfl⟩
    · decide
    · exact plainDigit_digitChar d hd

include hnil

theorem takeSign_signedDigits (negative : Bool) :
    takeSign (signedDigits negative ds) = (negative, ds.map digitChar) := by
  cases negative with
  | true => rfl
  | false =>
      obtain ⟨d, es, rfl⟩ := List.exists_cons_of_ne_nil hnil
      have hmarks := digitChar_notMem_marks d (by have := hds d List.mem_cons_self; omega)
      simp only [List.mem_cons, not_or] at hmarks
      show takeSign (digitChar d :: es.map digitChar) = _
      rw [takeSign]
      · rfl
      · exact fun cs h => hmarks.1 (List.cons.inj h).1
      · exact fun cs h => hmarks.2.1 (List.cons.inj h).1

include hlow hzero

theorem readInt?_signedDigits (negative : Bool) :
    readInt? radix (signedDigits negative ds) =
      if isReadable radix ds.length then some (signedValue radix negative ds) else none := by
  have hradix : isRadix radix = true := decide_eq_true (.inr ⟨by omega, by omega⟩)
  simp only [readInt?, if_pos hradix, plainNumeral_signedDigits hhigh hds,
    takeSign_signedDigits hhigh hds hnil, Int.toNat_natCast,
    unsignedDigits?_map hhigh hds hlow hnil hzero, Option.bind_some, signedValue]

/-! The numeral is the longest one at the start of its own text. -/

omit hnil in
theorem digitStart_map :
    digitStart radix (ds.map digitChar) = ds.map digitChar := by
  have hradix : radix ≠ 0 := by omega
  have hall : (ds.map digitChar).takeWhile (isDigitOf radix) = ds.map digitChar := by
    refine List.takeWhile_eq_self_iff.mpr fun c hc => ?_
    obtain ⟨d, hd, rfl⟩ := List.mem_map.mp hc
    rw [isDigitOf, digitValue?_digitChar d (by have := hds d hd; omega)]
    exact decide_eq_true (hds d hd)
  rw [digitStart]
  · simpa only [hradix, ne_eq, not_false_eq_true, if_true] using hall
  · exact map_digitChar_ne_marked hhigh hds hzero

theorem wholeStart_signedDigits (negative : Bool) :
    wholeStart radix (signedDigits negative ds) = signedDigits negative ds := by
  have hstart := digitStart_map hlow hhigh hds hzero
  obtain ⟨d, es, rfl⟩ := List.exists_cons_of_ne_nil hnil
  have hd : d < 36 := by have := hds d List.mem_cons_self; omega
  have hmarks := digitChar_notMem_marks d hd
  simp only [List.mem_cons, not_or] at hmarks
  have hblank : (signedDigits negative (d :: es)).dropWhile isBlank =
      signedDigits negative (d :: es) := by
    cases negative with
    | true => rfl
    | false => exact List.dropWhile_cons_of_neg (by simp [isBlank_digitChar d hd])
  simp only [wholeStart, hblank]
  cases negative with
  | true =>
      show (if (digitStart radix ((d :: es).map digitChar)).isEmpty then [] else
        '-' :: digitStart radix ((d :: es).map digitChar)) = _
      rw [hstart]
      rfl
  | false =>
      have hsign : ¬ ((signedDigits false (d :: es)).head? = some '-' ∨
          (signedDigits false (d :: es)).head? = some '+') := by
        simp [signedDigits, hmarks.1, hmarks.2.1]
      simp only [if_neg hsign, List.take_zero, List.length_nil, List.drop_zero]
      show (if (digitStart radix ((d :: es).map digitChar)).isEmpty then [] else
        digitStart radix ((d :: es).map digitChar)) = _
      rw [hstart]
      rfl

omit hnil in
theorem readInt?_take_signedDigits (negative : Bool) {k : Nat} (hk : k ≠ 0) (hle : k ≤ ds.length) :
    readInt? radix ((signedDigits negative ds).take ((if negative then 1 else 0) + k)) =
      if isReadable radix k then some (signedValue radix negative (ds.take k)) else none := by
  have hcut : (ds.take k).length = k := List.length_take_of_le hle
  have hnil : ds.take k ≠ [] := List.ne_nil_of_length_pos (by omega)
  have hhead (h : (ds.take k).head? = some 0) : ds.take k = [0] := by
    rw [List.head?_take, if_neg hk] at h
    rw [hzero h, List.take_of_length_le (Nat.one_le_iff_ne_zero.mpr hk)]
  rw [take_signedDigits, readInt?_signedDigits hlow hhigh
    (fun d hd => hds d (List.mem_of_mem_take hd)) hnil hhead negative, hcut]

omit hnil in
theorem longestInt?_signedDigits (negative : Bool) {n : Nat} (hlimit : digitLimit ≤ n)
    (hle : n ≤ ds.length) :
    longestInt? radix (signedDigits negative ds) ((if negative then 1 else 0) + n) =
      some (signedValue radix negative
        (ds.take (if isReadable radix n then n else digitLimit))) := by
  have hpos : 0 < digitLimit := by decide
  have hread {n : Nat} (hlimit : digitLimit ≤ n) (hle : n ≤ ds.length) :=
    readInt?_take_signedDigits hlow hhigh hds hzero negative (k := n) (by omega) hle
  induction n, hlimit using Nat.le_induction with
  | base =>
      have hreadable : isReadable radix digitLimit = true := by simp [isReadable]
      obtain ⟨k, hk⟩ : ∃ k, (if negative then 1 else 0) + digitLimit = k + 1 :=
        Nat.exists_eq_succ_of_ne_zero (by omega)
      have hbase := hread le_rfl hle
      rw [hk, if_pos hreadable] at hbase
      rw [hk, longestInt?, hbase, if_pos hreadable]
  | succ n hlimit ih =>
      have hstep := hread (Nat.le_succ_of_le hlimit) hle
      rw [Nat.succ_eq_add_one, ← Nat.add_assoc] at hstep
      rw [← Nat.add_assoc, longestInt?, hstep]
      by_cases hreadable : isReadable radix (n + 1) = true
      · rw [if_pos hreadable, if_pos hreadable]
      · rw [if_neg hreadable, if_neg hreadable]
        dsimp only
        rw [ih (by omega)]
        split
        next hreadable' =>
          have hn : n ≤ digitLimit := by
            rw [isReadable_iff, not_or] at hreadable
            exact (isReadable_iff.mp hreadable').resolve_left hreadable.1
          rw [Nat.le_antisymm hn hlimit]
        next => rfl

theorem leadingInt?_signedDigits (negative : Bool) :
    leadingInt? radix (signedDigits negative ds) =
      some (signedValue radix negative
        (ds.take (if isReadable radix ds.length then ds.length else digitLimit))) := by
  have hradix : isRadix radix = true := decide_eq_true (.inr ⟨by omega, by omega⟩)
  have hlength : 0 < ds.length := List.length_pos_iff.mpr hnil
  simp only [leadingInt?, if_pos hradix, Int.toNat_natCast,
    wholeStart_signedDigits hlow hhigh hds hnil hzero negative, length_signedDigits]
  obtain hshort | hlong := Nat.lt_or_ge ds.length digitLimit
  · have hreadable : isReadable radix ds.length = true := by simp [isReadable, hshort.le]
    have hread := readInt?_take_signedDigits hlow hhigh hds hzero negative
      (Nat.ne_of_gt hlength) le_rfl
    obtain ⟨k, hk⟩ : ∃ k, (if negative then 1 else 0) + ds.length = k + 1 :=
      Nat.exists_eq_succ_of_ne_zero (by omega)
    rw [hk, if_pos hreadable] at hread
    rw [hk, longestInt?, hread, if_pos hreadable]
  · exact longestInt?_signedDigits hlow hhigh hds hzero negative hlong le_rfl

end

end Number

/-- A numeral of an integer: digits of the radix, which denote it, behind a minus sign if it is
below zero. No digit but that of zero itself is a leading zero. -/
def IsNumeral (radix : Nat) (i : Int) (s : String) : Prop :=
  ∃ ds : List Nat, (∀ d ∈ ds, d < radix) ∧ Nat.ofDigits radix ds.reverse = i.natAbs ∧
    ds ≠ [] ∧ (ds.head? = some 0 → i = 0 ∧ ds = [0]) ∧
    s.toList.map some = (if i < 0 then [some '-'] else []) ++ ds.map (digitAlphabet[·]?)

/-- The numeral of an integer has more digits than a decimal text may have, which are 4300. -/
def IsLong (radix : Nat) (i : Int) : Prop :=
  radix ^ 4300 ≤ i.natAbs

theorem not_isLong_of_lt {radix : Nat} {i : Int} (h : i.natAbs < radix) : ¬ IsLong radix i := by
  have hpow {n : Nat} (hn : n ≠ 0) : i.natAbs < radix ^ n :=
    Nat.lt_of_lt_of_le h (Nat.le_self_pow hn radix)
  exact Nat.not_le.mpr (hpow (by decide))

/-- What the numeral of an integer reads as: in a radix that is no power of two, the digits beyond
the limit are left out. -/
def readBack (radix : Nat) (i : Int) : Int :=
  if radix ∈ [2, 4, 8, 16, 32] then i
  else i.sign * (i.natAbs / radix ^ ((Nat.digits radix i.natAbs).length - 4300) : Nat)

theorem signed_eq_sign_mul {i : Int} {q : Nat} (hq : i = 0 → q = 0) :
    (if decide (i < 0) = true then -(q : Int) else q) = i.sign * q := by
  obtain hneg | rfl | hpos := Int.lt_trichotomy i 0
  · simp [hneg, Int.sign_eq_neg_one_of_neg hneg]
  · simp [hq rfl]
  · simp [Int.not_lt.mpr hpos.le, Int.sign_eq_one_of_pos hpos]

/-- An integer is read back as it is unless its numeral is cut. -/
theorem readBack_eq_iff {radix : Nat} (hradix : 2 ≤ radix) (i : Int) :
    readBack radix i = i ↔ radix ∈ [2, 4, 8, 16, 32] ∨ ¬ IsLong radix i := by
  rw [readBack]
  split
  next hpower => exact iff_of_true rfl (.inl hpower)
  next hpower =>
    have hlength : (Nat.digits radix i.natAbs).length ≤ 4300 ↔ ¬ IsLong radix i := by
      rw [Nat.digits_length_le_iff (by omega), IsLong, Nat.not_le]
    rw [or_iff_right hpower, ← hlength]
    refine ⟨fun hcut => ?_, fun hle => ?_⟩
    · by_contra hlong
      have hne : i ≠ 0 := by
        rintro rfl
        simp at hlong
      have hpow : 1 < radix ^ ((Nat.digits radix i.natAbs).length - 4300) :=
        Nat.one_lt_pow (by omega) (by omega)
      have hless := Nat.div_lt_self (Int.natAbs_pos.mpr hne) hpow
      have habs := congrArg Int.natAbs hcut
      rw [Int.natAbs_mul, Int.natAbs_sign_of_ne_zero hne, Nat.one_mul, Int.natAbs_natCast] at habs
      omega
    · rw [Nat.sub_eq_zero_of_le hle, Nat.pow_zero, Nat.div_one, Int.sign_mul_natAbs]

theorem toList_intText (i : Int) :
    (intText i).toList = (if i < 0 then ['-'] else []) ++ digits 10 i.natAbs := by
  rw [intText, radixText, String.toList_ofList]

theorem length_digits_le_iff (n : Nat) :
    (digits 10 n).length ≤ digitLimit ↔ n < 10 ^ 4300 := by
  rw [digitLimit_eq, digits_eq_map (by decide), List.length_map, length_digitPlaces, Nat.max_le,
    Nat.digits_length_le_iff (by decide)]
  exact and_iff_right (by decide)

theorem Number.decimalText_of_long {i : Int} (h : IsLong 10 i) :
    decimalText i = .error .wrongValue := by
  rw [decimalText, if_neg (fun hle => Nat.not_lt.mpr h ((length_digits_le_iff _).mp hle))]

theorem Number.decimalText_of_not_long {i : Int} (h : ¬ IsLong 10 i) :
    decimalText i = .ok (intText i) := by
  rw [decimalText, if_pos ((length_digits_le_iff _).mpr (Nat.not_le.mp h))]

section

variable {radix : Nat} (hlow : 2 ≤ radix) (hhigh : radix ≤ 36) (i : Int)
include hlow

theorem toList_radixText : (radixText radix i).toList =
    Number.signedDigits (decide (i < 0)) (digitPlaces radix i.natAbs) := by
  simp only [radixText, String.toList_ofList, digits_eq_map hlow, Number.signedDigits,
    decide_eq_true_eq]

include hhigh

omit i in
theorem radixText_injective {i j : Int} (h : radixText radix i = radixText radix j) : i = j := by
  have hlist := congrArg String.toList h
  rw [toList_radixText hlow, toList_radixText hlow] at hlist
  have hsplit (k : Int) := Number.takeSign_signedDigits hhigh
    (fun d hd => digitPlaces_lt hlow hd) (digitPlaces_ne_nil radix k.natAbs) (decide (k < 0))
  have hdigits (k : Int) := Number.unsignedDigits?_map hhigh
    (fun d hd => digitPlaces_lt hlow hd) hlow (digitPlaces_ne_nil radix k.natAbs)
    digitPlaces_of_head?
  have hparts := congrArg Number.takeSign hlist
  rw [hsplit i, hsplit j, Prod.mk.injEq, decide_eq_decide] at hparts
  obtain ⟨hsign, hmap⟩ := hparts
  have hplaces := (hdigits i).symm.trans ((congrArg _ hmap).trans (hdigits j))
  rw [Option.some.injEq, Prod.mk.injEq] at hplaces
  have habs := congrArg (digitsValue radix 0) hplaces.2
  rw [digitsValue_digitPlaces, digitsValue_digitPlaces] at habs
  omega

theorem isNumeral_radixText : IsNumeral radix i (radixText radix i) := by
  have hdigit : ∀ d ∈ digitPlaces radix i.natAbs, d < radix := fun d hd => digitPlaces_lt hlow hd
  refine ⟨digitPlaces radix i.natAbs, hdigit, ?_, digitPlaces_ne_nil radix _, fun hhead => ?_, ?_⟩
  · rw [← digitsValue_reverse, List.reverse_reverse, digitsValue_digitPlaces]
  · have hi : i = 0 := by_contra fun hi =>
      head?_digitPlaces radix (Int.natAbs_ne_zero.mpr hi) hhead
    exact ⟨hi, digitPlaces_of_head? hhead⟩
  · have hchars : (digitPlaces radix i.natAbs).map (some ∘ digitChar) =
        (digitPlaces radix i.natAbs).map (digitAlphabet[·]?) :=
      List.map_congr_left fun d hd =>
        (digitAlphabet_getElem? d (by have := hdigit d hd; omega)).symm
    rw [toList_radixText hlow, Number.signedDigits, List.map_append, List.map_map, hchars]
    by_cases hi : i < 0 <;> simp [hi]

theorem leadingInt?_radixText :
    Number.leadingInt? radix (radixText radix i).toList = some (readBack radix i) := by
  have hread := Number.leadingInt?_signedDigits hlow hhigh (fun d hd => digitPlaces_lt hlow hd)
    (digitPlaces_ne_nil radix i.natAbs) digitPlaces_of_head? (decide (i < 0))
  have hcut : (digitPlaces radix i.natAbs).length -
      (if isReadable radix (digitPlaces radix i.natAbs).length then
        (digitPlaces radix i.natAbs).length else digitLimit) =
      if radix ∈ [2, 4, 8, 16, 32] then 0
      else (Nat.digits radix i.natAbs).length - 4300 := by
    rw [if_congr isReadable_iff rfl rfl, length_digitPlaces, digitLimit_eq]
    by_cases hpower : radix ∈ [2, 4, 8, 16, 32]
    · simp [hpower]
    · simp only [hpower, false_or, if_false]
      split <;> omega
  have hkept : (if isReadable radix (digitPlaces radix i.natAbs).length then
      (digitPlaces radix i.natAbs).length else digitLimit) ≠ 0 := by
    have hlength := List.length_pos_iff.mpr (digitPlaces_ne_nil radix i.natAbs)
    rw [digitLimit_eq]
    split <;> omega
  rw [toList_radixText hlow, hread, Number.signedValue, digitsValue_take_digitPlaces hlow hkept,
    signed_eq_sign_mul (fun hi => by simp [hi]), hcut, readBack]
  split
  next => rw [Nat.pow_zero, Nat.div_one, Int.sign_mul_natAbs]
  next => rfl

end

theorem Value.numberText_ofInt {radix : Nat} (hlow : 2 ≤ radix) (hhigh : radix ≤ 36) (i : Int)
    (h : ¬ (radix = 10 ∧ IsLong 10 i)) :
    (Value.ofInt i).numberText (.ofNat radix) = pure (.text (radixText radix i)) := by
  have hradix : (2 : Int) ≤ radix ∧ (radix : Int) ≤ 36 := by omega
  show (if (radix : Int) = 10 then (do return .text (← Act.ofDefect (Number.decimalText i)))
    else radixValue radix i) = _
  split
  next hten =>
    have hlong : ¬ IsLong 10 i := fun hlong => h ⟨by omega, hlong⟩
    rw [Number.decimalText_of_not_long hlong, intText, show radix = 10 by omega]
    rfl
  next => rw [radixValue, if_pos hradix, Int.toNat_natCast]

theorem Value.numberText_of_long {i : Int} (h : IsLong 10 i) :
    (Value.ofInt i).numberText (.ofNat 10) = Act.defect .wrongValue := by
  show (do return .text (← Act.ofDefect (Number.decimalText i)) : Act Value) = _
  rw [Number.decimalText_of_long h]
  rfl

section

variable {radix : Nat} (hlow : 2 ≤ radix) (hhigh : radix ≤ 36) (i : Int) (depth : Nat)
  (context : Context) (m : Machine)
include hlow hhigh

theorem call_toString (h : ¬ (radix = 10 ∧ IsLong 10 i)) :
    call (depth + 1) context (.builtin (.number .toString)) [.ofInt i, .ofNat radix] m =
      .ok (.text (radixText radix i)) m := by
  show Run.ofAct ((Value.ofInt i).numberText (.ofNat radix)) m = _
  rw [Value.numberText_ofInt hlow hhigh i h]
  rfl

theorem call_parseInt_radixText :
    call (depth + 1) context (.builtin (.global .parseInt))
      [.text (radixText radix i), .ofNat radix] m = .ok (.ofInt (readBack radix i)) m := by
  show Run.ofAct (pure (Value.number (.parseWhole radix (radixText radix i).toList))) m = _
  rw [Number.parseWhole, leadingInt?_radixText hlow hhigh]
  rfl

end

/-- An integer in a radix is written as a numeral, unless the radix is ten and the numeral is beyond
the limit on digits. The numeral is read as the integer again, unless the radix is no power of two
and the numeral is beyond the limit; then the digits up to the limit are read. -/
theorem numeral_round_trip {radix : Nat} (hlow : 2 ≤ radix) (hhigh : radix ≤ 36) (i : Int)
    (depth : Nat) (context : Context) (m : Machine) :
    (radix = 10 → IsLong 10 i →
      call (depth + 1) context (.builtin (.number .toString)) [.ofInt i, .ofNat radix] m =
        .error (.fault (.builtin .wrongValue)) m) ∧
    (¬ (radix = 10 ∧ IsLong 10 i) → ∃ s, IsNumeral radix i s ∧
      call (depth + 1) context (.builtin (.number .toString)) [.ofInt i, .ofNat radix] m =
        .ok (.text s) m ∧
      call (depth + 1) context (.builtin (.global .parseInt)) [.text s, .ofNat radix] m =
        .ok (.ofInt (readBack radix i)) m) ∧
    (readBack radix i = i ↔ radix ∈ [2, 4, 8, 16, 32] ∨ ¬ IsLong radix i) := by
  refine ⟨?_, fun h => ⟨radixText radix i, isNumeral_radixText hlow hhigh i,
    call_toString hlow hhigh i depth context m h,
    call_parseInt_radixText hlow hhigh i depth context m⟩, readBack_eq_iff hlow i⟩
  rintro rfl hlong
  show Run.ofAct ((Value.ofInt i).numberText (.ofNat 10)) m = _
  rw [Value.numberText_of_long hlong]
  rfl

/-- 255 below zero in hexadecimal digits. -/
theorem numeral_round_trip_hexadecimal :
    ∃ s, IsNumeral 16 (-255) s ∧
      call 1 .plain (.builtin (.number .toString)) [.ofInt (-255), .ofNat 16] .initial =
        .ok (.text s) .initial ∧
      call 1 .plain (.builtin (.global .parseInt)) [.text s, .ofNat 16] .initial =
        .ok (.ofInt (-255)) .initial :=
  (numeral_round_trip (by decide) (by decide) (-255) 0 .plain .initial).2.1 fun h => nomatch h.1

/-- The ternary numeral of a power of three that is beyond the limit is read without its last
digits. -/
theorem not_read_back_power_of_three :
    ¬ ∀ radix, 2 ≤ radix → radix ≤ 36 → ∀ (i : Int) depth context m, ∃ s, IsNumeral radix i s ∧
      call (depth + 1) context (.builtin (.number .toString)) [.ofInt i, .ofNat radix] m =
        .ok (.text s) m ∧
      call (depth + 1) context (.builtin (.global .parseInt)) [.text s, .ofNat radix] m =
        .ok (.ofInt i) m := by
  intro h
  generalize hi : ((3 ^ 4300 : Nat) : Int) = i at h
  obtain ⟨s, -, hwrite, hread⟩ := h 3 (by decide) (by decide) i 0 .plain .initial
  have hwritten := call_toString (by decide : 2 ≤ 3) (by decide) i 0 .plain .initial nofun
  obtain rfl := Value.text.inj (EStateM.Result.ok.inj (hwrite.symm.trans hwritten)).1
  have hparsed := call_parseInt_radixText (by decide : 2 ≤ 3) (by decide) i 0 .plain .initial
  have hback := Number.int.inj
    (Value.number.inj (EStateM.Result.ok.inj (hread.symm.trans hparsed)).1)
  have hlong : IsLong 3 i := by rw [IsLong, ← hi, Int.natAbs_natCast]
  exact ((readBack_eq_iff (by decide) i).mp hback.symm).elim (by decide) fun h => h hlong

end StringLambda
