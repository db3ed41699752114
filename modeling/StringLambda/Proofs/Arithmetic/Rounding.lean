import StringLambda.Proofs.Arithmetic.Addition
import StringLambda.Proofs.Arithmetic.Remainder
import StringLambda.Proofs.Numerals

namespace StringLambda

/-! Integers that are rounded, and integers that are written with decimal places. The floor and the
ceiling keep an integer as it is. What goes through a float gets the nearest one of the format. -/

theorem roundHalfEven_bounds (num : Nat) {den : Nat} (hden : 0 < den) :
    2 * (roundHalfEven num den * den) ≤ 2 * num + den ∧
      2 * num ≤ 2 * (roundHalfEven num den * den) + den := by
  have hnum : den * (num / den) + num % den = num := Nat.div_add_mod num den
  have hmod : num % den < den := Nat.mod_lt num hden
  have hsucc : (num / den + 1) * den = den * (num / den) + den := by ring
  have hself : num / den * den = den * (num / den) := Nat.mul_comm ..
  simp only [roundHalfEven]
  split <;> [skip; split <;> [skip; split]] <;> omega

theorem roundHalfEven_of_near {num den c : Nat} (hlow : 2 * (c * den) < 2 * num + den)
    (hhigh : 2 * num < 2 * (c * den) + den) : roundHalfEven num den = c := by
  have hden : 0 < den := by omega
  obtain ⟨hupper, hlower⟩ := roundHalfEven_bounds num hden
  have hle {a b : Nat} (h : 2 * (a * den) < 2 * (b * den) + 2 * den) : a ≤ b := by
    have hlt : a * den < (b + 1) * den := by rw [Nat.succ_mul]; omega
    exact Nat.le_of_lt_succ (Nat.lt_of_mul_lt_mul_right hlt)
  exact le_antisymm (hle (by omega)) (hle (by omega))

theorem roundHalfEven_tie (a : Nat) :
    roundHalfEven (2 * a + 1) 2 = if a % 2 = 0 then a else a + 1 := by
  simp only [roundHalfEven]
  grind

namespace Dyadic

theorem value_mul (d : Dyadic) : d.value * d.magnitude.2 = d.ratio.1 := by
  rw [value, ratio]
  split <;> simp [magnitude_fst]

theorem floor_eq (d : Dyadic) : d.floor = ⌊d.value⌋ := by
  have hden : (d.magnitude.2 : ℚ) ≠ 0 := by exact_mod_cast (Nat.two_pow_pos _).ne'
  rw [eq_div_of_mul_eq hden d.value_mul, Rat.floor_intCast_div_natCast]
  exact Int.fdiv_eq_ediv_of_nonneg _ (Int.natCast_nonneg _)

theorem value_of_modulus {d : Dyadic} {n : Int} (hnegative : d.negative = decide (n < 0))
    (hmodulus : d.modulus = n.natAbs) : d.value = n := by
  rw [value, hnegative, hmodulus, Nat.cast_natAbs]
  by_cases h : n < 0
  · simp [h, abs_of_neg h]
  · simp [h, abs_of_nonneg (not_lt.mp h)]

theorem mantissa_pos {d : Dyadic} {n : Int} (hn : n ≠ 0) (hmodulus : d.modulus = n.natAbs) :
    0 < d.mantissa := by
  refine Nat.pos_of_ne_zero fun h => hn ?_
  simpa [modulus, h, eq_comm] using hmodulus

end Dyadic

namespace Float64

theorem Holds.lt_of_odd {n : Nat} (hn : Holds n) (hodd : n % 2 = 1) : n < 2 ^ 53 := by
  obtain ⟨c, k, hc, rfl⟩ := hn
  cases k with
  | zero => simpa using hc
  | succ k =>
      rw [pow_succ, ← mul_assoc] at hodd
      omega

theorem Holds.two_pow_dvd {n k : Nat} (hn : Holds n) (hlarge : 2 ^ 52 * 2 ^ k ≤ n) : 2 ^ k ∣ n := by
  obtain ⟨c, j, hc, rfl⟩ := hn
  have hlt : 2 ^ (52 + k) < 2 ^ (53 + j) := by
    rw [pow_add, pow_add]
    exact hlarge.trans_lt (Nat.mul_lt_mul_of_pos_right hc (Nat.two_pow_pos j))
  have hle : k ≤ j := by
    have := (Nat.pow_lt_pow_iff_right one_lt_two).mp hlt
    omega
  exact Nat.dvd_mul_left_of_dvd (Nat.pow_dvd_pow 2 hle) c

end Float64

namespace Number

open Float64

/-- The integer below the float that is nearest to an integer and a half, if the integer is one of
the format. -/
def halfUp (n : Int) : Int :=
  if n.natAbs < 2 ^ 52 ∨ n % 2 = 0 then n else n + 1

theorem roundedAt_half_of_neg (m : Nat) {e : Int} (he : e < 0) :
    (roundedAt m 2 e * 2 ^ e : ℚ) = m / 2 := by
  obtain ⟨k, rfl⟩ : ∃ k : Nat, e = -(k + 1) := ⟨(-e - 1).toNat, by omega⟩
  have hdigits : roundedAt m 2 (-(k + 1)) = m * 2 ^ k := by
    rw [roundedAt, show (-(-((k : Int) + 1))).toNat = k + 1 by omega,
      show (-((k : Int) + 1)).toNat = 0 by omega, pow_succ, pow_zero, mul_one, ← mul_assoc,
      roundHalfEven_mul _ two_pos]
  rw [hdigits, zpow_neg, zpow_add_one₀ two_ne_zero, zpow_natCast]
  push_cast
  field_simp

theorem roundedAt_half_of_pos {m n e : Nat} (he : 0 < e) (hdvd : 2 ^ e ∣ n) (hlow : 2 * n ≤ m + 1)
    (hhigh : m ≤ 2 * n + 1) : roundedAt m 2 e * 2 ^ e = n := by
  obtain ⟨c, rfl⟩ := hdvd
  have hpow : 2 ^ 1 ≤ 2 ^ e := Nat.pow_le_pow_right two_pos he
  have hc : c * (2 * 2 ^ e) = 2 * (2 ^ e * c) := by ring
  have hround : roundHalfEven m (2 * 2 ^ e) = c :=
    roundHalfEven_of_near (by rw [hc]; omega) (by rw [hc]; omega)
  rw [roundedAt, show (-(e : Int)).toNat = 0 by omega, Int.toNat_natCast, pow_zero, mul_one, hround,
    mul_comm]

section

variable {n : Int} {f : Dyadic} (hnegative : f.negative = decide (n < 0))
include hnegative

theorem floor_of_modulus {r : Nat} (hmodulus : f.modulus = r)
    (hr : (if n < 0 then -(r : Int) else r) = halfUp n) : f.floor = halfUp n := by
  rw [Dyadic.floor_eq, Dyadic.value, hnegative, hmodulus, ← hr]
  by_cases h : n < 0 <;> simp [h, Int.floor_neg]

theorem floor_half_exact (hmodulus : f.modulus = (2 * n + 1).natAbs / 2)
    (hsmall : (2 * n + 1).natAbs < 2 ^ 53) : f.floor = halfUp n := by
  have hvalue : f.value = n + 1 / 2 := by
    rw [Dyadic.value, hnegative, hmodulus, Nat.cast_natAbs]
    by_cases h : n < 0
    · rw [if_pos (decide_eq_true h), abs_of_neg (by omega)]
      push_cast
      ring
    · rw [if_neg (by simpa using h), abs_of_pos (by omega)]
      push_cast
      ring
  rw [Dyadic.floor_eq, hvalue, halfUp, if_pos (by omega), Int.floor_eq_iff]
  constructor <;> linarith

theorem floor_half_tie (hmodulus : f.modulus = roundedAt (2 * n + 1).natAbs 2 0)
    (hlarge : 2 ^ 53 ≤ (2 * n + 1).natAbs) : f.floor = halfUp n := by
  obtain ⟨a, ha⟩ : ∃ a, (2 * n + 1).natAbs = 2 * a + 1 := ⟨(2 * n + 1).natAbs / 2, by omega⟩
  have hround : roundedAt (2 * a + 1) 2 0 = if a % 2 = 0 then a else a + 1 := by
    simpa [roundedAt] using roundHalfEven_tie a
  rw [ha, hround] at hmodulus
  refine floor_of_modulus hnegative hmodulus ?_
  rw [halfUp]
  split <;> split <;> split <;> omega

theorem floor_half_lost (hn : Holds n.natAbs) {k : Nat} (hk : 0 < k)
    (hmodulus : f.modulus = (roundedAt (2 * n + 1).natAbs 2 k * 2 ^ k : Nat))
    (hlarge : 2 ^ 53 * 2 ^ k ≤ (2 * n + 1).natAbs) : f.floor = halfUp n := by
  have hdvd : 2 ^ k ∣ n.natAbs := hn.two_pow_dvd (by omega)
  have heven : n % 2 = 0 := by
    have : 2 ∣ n.natAbs := (dvd_pow_self 2 hk.ne').trans hdvd
    omega
  rw [roundedAt_half_of_pos hk hdvd (by omega) (by omega)] at hmodulus
  refine floor_of_modulus hnegative hmodulus ?_
  rw [show halfUp n = n from if_pos (.inr heven)]
  omega

theorem floor_half (hn : Holds n.natAbs) {e : Int} (he : exponentOf (2 * n + 1).natAbs 2 = e)
    (hmodulus : f.modulus = roundedAt (2 * n + 1).natAbs 2 e * 2 ^ e) : f.floor = halfUp n := by
  obtain ⟨hupper, hlower⟩ := exponentOf_bounds (show 0 < (2 * n + 1).natAbs by omega) two_pos
  rw [he] at hupper hlower
  have hlarge {k : Nat} (hk : e = k) : 2 ^ 53 * 2 ^ k ≤ (2 * n + 1).natAbs := by
    have hle := hlower (by omega)
    rw [hk, zpow_natCast] at hle
    have hle' : 2 ^ 52 * 2 * 2 ^ k ≤ (2 * n + 1).natAbs := by exact_mod_cast hle
    omega
  obtain hneg | rfl | hpos := Int.lt_trichotomy e 0
  · rw [roundedAt_half_of_neg _ hneg] at hmodulus
    refine floor_half_exact hnegative hmodulus ?_
    have hunit : (2 : ℚ) ^ e ≤ 2 ^ (-1 : Int) := zpow_le_zpow_right₀ one_le_two (by omega)
    rw [zpow_neg_one] at hunit
    have hlt : ((2 * n + 1).natAbs : ℚ) < 2 ^ 53 := hupper.trans_le (by push_cast; linarith)
    exact_mod_cast hlt
  · rw [zpow_zero, mul_one] at hmodulus
    exact floor_half_tie hnegative hmodulus (by simpa using hlarge Nat.cast_zero.symm)
  · obtain ⟨k, rfl⟩ := Int.eq_ofNat_of_zero_le hpos.le
    rw [zpow_natCast] at hmodulus
    exact floor_half_lost hnegative hn (by omega) (by exact_mod_cast hmodulus) (hlarge rfl)

end

theorem ofFloat?_half : Dyadic.ofFloat? 0.5 = some ⟨false, 2 ^ 52, -53⟩ := by rfl

theorem nearest_lt_zero_iff (i : Int) : nearest i < 0 ↔ i < 0 := by
  rw [← Int.sign_eq_neg_one_iff_neg, sign_nearest, Int.sign_eq_neg_one_iff_neg]

theorem toFloat_nearest {i : Int} (hi : i.natAbs < limit) :
    ∃ x d, toFloat (.int i) = .ok x ∧ Dyadic.ofFloat? x = some d ∧
      d.negative = decide (nearest i < 0) ∧ d.modulus = (nearest i).natAbs := by
  obtain ⟨x, d, hx, hd, hnegative, hmodulus⟩ := toFloat_int_of_lt hi
  rw [← decide_eq_decide.mpr (nearest_lt_zero_iff i)] at hnegative
  exact ⟨x, d, hx, hd, hnegative, hmodulus⟩

theorem add_half {n : Int} {x : Float} {d : Dyadic} (hn : n ≠ 0) (hd : Dyadic.ofFloat? x = some d)
    (hnegative : d.negative = decide (n < 0)) (hmodulus : d.modulus = n.natAbs) :
    ∃ f, Dyadic.ofFloat? (x + 0.5) = some f ∧ f.negative = decide (n < 0) ∧
      f.modulus = roundedAt (2 * n + 1).natAbs 2 (exponentOf (2 * n + 1).natAbs 2) *
        2 ^ exponentOf (2 * n + 1).natAbs 2 := by
  have hmantissa := Dyadic.mantissa_pos hn hmodulus
  have hsum : d.value + Dyadic.value ⟨false, 2 ^ 52, -53⟩ = (2 * n + 1 : Int) / (2 : Nat) := by
    have hhalf : Dyadic.value ⟨false, 2 ^ 52, -53⟩ = 1 / 2 := by
      norm_num [Dyadic.value, Dyadic.modulus]
    rw [Dyadic.value_of_modulus hnegative hmodulus, hhalf]
    push_cast
    ring
  have hodd : 2 * n + 1 ≠ 0 := by omega
  have hbelow : decide (2 * n + 1 < 0) = decide (n < 0) := decide_eq_decide.mpr (by omega)
  have hlimit : (2 * n + 1).natAbs < limit * 2 := by
    have hlt := magnitude_lt_limit hd
    rw [Dyadic.magnitude_fst_of_modulus hmodulus] at hlt
    have := Nat.lt_of_mul_lt_mul_right hlt
    generalize limit = bound at *
    omega
  rw [add_eq_ofRatio hd ofFloat?_half hmantissa (Nat.two_pow_pos 52) hodd Nat.two_pos hsum, hbelow]
  exact exists_ofFloat?_ofRatio (Int.natAbs_pos.mpr hodd) Nat.two_pos hlimit _

theorem roundHalfUp_int {i : Int} (hi : i.natAbs < limit) :
    roundHalfUp (.int i) = .ok (.int (halfUp (nearest i))) := by
  obtain rfl | hi0 := eq_or_ne i 0
  · rfl
  obtain ⟨x, d, hx, hd, hnegative, hmodulus⟩ := toFloat_nearest hi
  obtain ⟨f, hf, hnegative', hmodulus'⟩ := add_half (nearest_ne_zero hi0) hd hnegative hmodulus
  simp only [roundHalfUp, add, lift, hx]
  change (do return Number.int (← toInt Dyadic.floor (.float (x + 0.5))) : Except Defect Number) = _
  rw [toInt, hf]
  exact congrArg (fun n => Except.ok (Number.int n))
    (floor_half hnegative' (holds_nearest i) rfl hmodulus')

theorem roundHalfUp_int_of_le {i : Int} (hi : limit ≤ i.natAbs) :
    roundHalfUp (.int i) = .error .overflow := by
  simp only [roundHalfUp, add, lift, toFloat_int_of_le hi]
  rfl

/-- The integers that are kept: those of the format, except the odd ones among the greatest. -/
theorem halfUp_nearest_eq_iff (i : Int) :
    halfUp (nearest i) = i ↔ Holds i.natAbs ∧ (i.natAbs < 2 ^ 52 ∨ i % 2 = 0) := by
  constructor
  · intro h
    obtain hkept | hraised : halfUp (nearest i) = nearest i ∨
        nearest i % 2 = 1 ∧ halfUp (nearest i) = nearest i + 1 := by
      rw [halfUp]
      split <;> omega
    · rw [hkept] at h
      refine ⟨(nearest_eq_self_iff i).mp h, ?_⟩
      rw [h, halfUp] at hkept
      split at hkept
      next hsmall => exact hsmall
      next => omega
    · -- an odd number that is raised has no digits above those of the format
      have hlt := (holds_nearest i).lt_of_odd (by omega)
      have := (nearest_eq_self_iff i).mpr (holds_of_le (by omega))
      omega
  · intro ⟨hholds, hsmall⟩
    rw [(nearest_eq_self_iff i).mpr hholds]
    exact if_pos hsmall

end Number

def wholeText (i : Int) (places : Nat) : String :=
  String.ofList ((intText i).toList ++ if places = 0 then [] else '.' :: List.replicate places '0')

theorem intText_injective {i j : Int} (h : intText i = intText j) : i = j :=
  radixText_injective (by decide) (by decide) h

theorem wholeText_eq_iff {i j : Int} {places : Nat} :
    wholeText i places = wholeText j places ↔ i = j := by
  refine ⟨fun h => intText_injective (String.toList_inj.mp ?_), fun h => h ▸ rfl⟩
  exact List.append_cancel_right (String.ofList_injective h)

theorem digits_mul_ten_pow {n : Nat} (hn : n ≠ 0) (places : Nat) :
    digits 10 (n * 10 ^ places) = digits 10 n ++ List.replicate places '0' := by
  have hpow : n * 10 ^ places ≠ 0 := Nat.mul_ne_zero hn (by positivity)
  rw [digits_eq_map (by decide), digits_eq_map (by decide), digitPlaces, digitPlaces, if_neg hn,
    if_neg hpow, mul_comm, Nat.digits_base_pow_mul (by decide) (Nat.pos_of_ne_zero hn),
    List.reverse_append, List.reverse_replicate, List.map_append, List.map_replicate]
  rfl

theorem padded_digits (n places : Nat) :
    List.replicate (places + 1 - (digits 10 (n * 10 ^ places)).length) '0' ++
      digits 10 (n * 10 ^ places) = digits 10 n ++ List.replicate places '0' := by
  obtain rfl | hn := eq_or_ne n 0
  · have hzero : digits 10 0 = ['0'] := rfl
    rw [Nat.zero_mul, hzero]
    exact (List.replicate_succ' ..).symm.trans (List.replicate_succ ..)
  · have hpos : 0 < (digits 10 n).length := by
      rw [digits_eq_map (by decide), List.length_map]
      exact List.length_pos_iff.mpr (digitPlaces_ne_nil 10 n)
    rw [digits_mul_ten_pow hn, List.length_append, List.length_replicate,
      Nat.sub_eq_zero_of_le (by omega)]
    rfl

theorem fixedText_mul (n : Nat) {den : Nat} (hden : 0 < den) (places : Nat) :
    fixedText (n * den) den places =
      digits 10 n ++ if places = 0 then [] else '.' :: List.replicate places '0' := by
  have hlength : (digits 10 n ++ List.replicate places '0').length - places =
      (digits 10 n).length := by simp
  rw [fixedText, Nat.pow_eq, mul_right_comm, roundHalfEven_mul _ hden]
  simp only [padded_digits, hlength, List.take_left, List.drop_left]
  split <;> simp

namespace Float64

theorem isNegative_of_ofFloat? {x : Float} {d : Dyadic} (hd : Dyadic.ofFloat? x = some d) :
    isNegative x = d.negative := by
  have hlt : x.toBits.toNat < 2 ^ 64 := x.toBits.toNat_lt
  have hsign : x.toBits.toNat / 2 ^ 63 % 2 = x.toBits.toNat / 2 ^ 63 := by omega
  simp only [Dyadic.ofFloat?, Dyadic.ofBits?, Nat.pow_eq, hsign] at hd
  rw [isNegative, Nat.pow_eq]
  split at hd
  next => cases hd
  next => split at hd <;> cases hd <;> rfl

theorem floatFixedText_of_modulus {x : Float} {d : Dyadic} {n : Int}
    (hd : Dyadic.ofFloat? x = some d) (hnegative : d.negative = decide (n < 0))
    (hmodulus : d.modulus = n.natAbs) (places : Nat) :
    floatFixedText x places = wholeText n places := by
  have hden : 0 < d.magnitude.2 := Nat.two_pow_pos _
  have hfixed := fixedText_mul n.natAbs hden places
  rw [floatFixedText, isNaN_of_ofFloat? hd, isNegative_of_ofFloat? hd, hd, hnegative, wholeText,
    toList_intText, List.append_assoc, ← hfixed, ← Dyadic.magnitude_fst_of_modulus hmodulus]
  simp only [decide_eq_true_eq]
  rfl

end Float64

open Float64

theorem Number.fixed_int {i : Int} (hi : i.natAbs < limit) (places : Nat) :
    fixed places (.int i) = .ok (wholeText (nearest i) places) := by
  obtain ⟨x, d, hx, hd, hnegative, hmodulus⟩ := toFloat_nearest hi
  rw [fixed, hx]
  exact congrArg Except.ok (floatFixedText_of_modulus hd hnegative hmodulus places)

section

variable (depth : Nat) (context : Context) (i : Int) (m : Machine)

theorem call_round : call (depth + 1) context (.builtin (.global .roundHalfUp)) [.ofInt i] m =
    Run.ofAct (do return .number (← Act.ofDefect (Number.int i).roundHalfUp)) m := rfl

theorem call_toFixed {places : Nat} (h : places ≤ 100) :
    call (depth + 1) context (.builtin (.number .toFixed)) [.ofInt i, .ofNat places] m =
      Run.ofAct (do return .text (← Act.ofDefect ((Number.int i).fixed places))) m := by
  show Run.ofAct (if (places : Int) < 0 ∨ 100 < (places : Int) then Act.raise .fixedDigits
    else do return Value.text (← Act.ofDefect ((Number.int i).fixed (places : Int).toNat))) m = _
  rw [if_neg (by omega), Int.toNat_natCast]

/-- The floor and the ceiling of an integer are the integer. Rounding it and writing it with decimal
places work on the nearest float, which there is up to the limit of the format. Hence the text is
that of the integer if the integer is in the format, and rounding keeps it if it is besides even or
has a digit left for a half. -/
theorem integers_rounded :
    call (depth + 1) context (.builtin (.global .floor)) [.ofInt i] m = .ok (.ofInt i) m ∧
      call (depth + 1) context (.builtin (.global .ceil)) [.ofInt i] m = .ok (.ofInt i) m ∧
      (limit ≤ i.natAbs ∧
          call (depth + 1) context (.builtin (.global .roundHalfUp)) [.ofInt i] m =
            .error (.fault (.builtin .overflow)) m ∧
          (∀ places ≤ 100,
            call (depth + 1) context (.builtin (.number .toFixed)) [.ofInt i, .ofNat places] m =
              .error (.fault (.builtin .overflow)) m) ∨
        i.natAbs < limit ∧
          call (depth + 1) context (.builtin (.global .roundHalfUp)) [.ofInt i] m =
            .ok (.ofInt (Number.halfUp (nearest i))) m ∧
          (∀ places ≤ 100,
            call (depth + 1) context (.builtin (.number .toFixed)) [.ofInt i, .ofNat places] m =
              .ok (.text (wholeText (nearest i) places)) m)) ∧
      (Number.halfUp (nearest i) = i ↔ Holds i.natAbs ∧ (i.natAbs < 2 ^ 52 ∨ i % 2 = 0)) ∧
      ∀ places, wholeText (nearest i) places = wholeText i places ↔ Holds i.natAbs := by
  refine ⟨rfl, rfl, ?_, Number.halfUp_nearest_eq_iff i, fun places => by
    rw [wholeText_eq_iff, nearest_eq_self_iff]⟩
  obtain hbeyond | hwithin := le_or_gt limit i.natAbs
  · refine .inl ⟨hbeyond, ?_, fun places hplaces => ?_⟩
    · rw [call_round, Number.roundHalfUp_int_of_le hbeyond]
      rfl
    · rw [call_toFixed _ _ _ _ hplaces, Number.fixed, Number.toFloat_int_of_le hbeyond]
      rfl
  · refine .inr ⟨hwithin, ?_, fun places hplaces => ?_⟩
    · rw [call_round, Number.roundHalfUp_int hwithin]
      rfl
    · rw [call_toFixed _ _ _ _ hplaces, Number.fixed_int hwithin]
      rfl

end

theorem integers_rounded_cents : 2 ≤ 100 ∧
    call 1 .plain (.builtin (.number .toFixed)) [.ofInt (-12345), .ofNat 2] .initial =
      .ok (.text "-12345.00") .initial := by
  refine ⟨by decide, ?_⟩
  obtain ⟨-, -, ⟨hbeyond, -⟩ | ⟨-, -, hfixed⟩, -⟩ := integers_rounded 0 .plain (-12345) .initial
  · exact absurd hbeyond (by decide +kernel)
  · rw [hfixed 2 (by decide)]
    rfl

/-- The least odd integer without a digit left for a half is raised to the next even one. -/
theorem not_forall_integers_rounded :
    ¬ ∀ (depth : Nat) (context : Context) (i : Int) (m : Machine),
      call (depth + 1) context (.builtin (.global .floor)) [.ofInt i] m = .ok (.ofInt i) m ∧
        call (depth + 1) context (.builtin (.global .ceil)) [.ofInt i] m = .ok (.ofInt i) m ∧
        call (depth + 1) context (.builtin (.global .roundHalfUp)) [.ofInt i] m =
          .ok (.ofInt i) m ∧
        ∀ places ≤ 100,
          call (depth + 1) context (.builtin (.number .toFixed)) [.ofInt i, .ofNat places] m =
            .ok (.text (wholeText i places)) m := fun h => by
  obtain ⟨-, -, hround, -⟩ := h 0 .plain (2 ^ 52 + 1) .initial
  have hraised : Number.halfUp (nearest (2 ^ 52 + 1)) = 2 ^ 52 + 2 := by decide
  rw [call_round, Number.roundHalfUp_int (by decide +kernel), hraised] at hround
  cases hround

end StringLambda
