import StringLambda.Number.Basic
import Mathlib

namespace StringLambda

/-! The float format: which words are which floats, and which fractions are too large for it. -/

open Float.Model Float.Model.UnpackedFloat

theorem roundHalfEven_le {num den c : Nat} (hden : 0 < den) (h : num < c * den) :
    roundHalfEven num den ≤ c := by
  have : num / den < c := (Nat.div_lt_iff_lt_mul hden).mpr h
  simp only [roundHalfEven]
  grind

theorem div_le_roundHalfEven (num den : Nat) : num / den ≤ roundHalfEven num den := by
  simp only [roundHalfEven]
  grind

theorem roundHalfEven_lt_iff (num k : Nat) {den : Nat} (hden : 0 < den) :
    roundHalfEven num den < 2 * (k + 1) ↔ 2 * num < (4 * k + 3) * den := by
  have hnum : den * (num / den) + num % den = num := Nat.div_add_mod num den
  have hmod : num % den < den := Nat.mod_lt num hden
  obtain hq | hq | hq := Nat.lt_trichotomy (num / den) (2 * k + 1)
  · have hr : roundHalfEven num den ≤ num / den + 1 := by
      simp only [roundHalfEven]
      grind
    have : den * (num / den) ≤ den * (2 * k) := Nat.mul_le_mul_left den (by omega)
    exact iff_of_true (by omega) (by nlinarith)
  · have hr : roundHalfEven num den < 2 * (k + 1) ↔ 2 * (num % den) < den := by
      simp only [roundHalfEven]
      grind
    rw [hr]
    rw [hq] at hnum
    constructor <;> intro h <;> nlinarith
  · have : den * (2 * k + 2) ≤ den * (num / den) := Nat.mul_le_mul_left den (by omega)
    have hle : den * (num / den) ≤ num := Nat.mul_div_le num den
    exact iff_of_false (by have := div_le_roundHalfEven num den; omega) (by nlinarith)

namespace Float64

/-- The number half of a step above the greatest float. From here on a number is nearer to the next
power of two, which is beyond the format. -/
def limit : Nat :=
  (2 ^ 54 - 1) * 2 ^ 970

def exponentOf (num den : Nat) : Int :=
  let guess : Int := (num.log2 : Int) - den.log2 - 52
  max (if num * 2 ^ (-guess).toNat / (den * 2 ^ guess.toNat) < 2 ^ 52 then guess - 1 else guess)
    (-1074)

def roundedAt (num den : Nat) (e : Int) : Nat :=
  roundHalfEven (num * 2 ^ (-e).toNat) (den * 2 ^ e.toNat)

theorem bitsOfRatio_of_pos {num den : Nat} (hnum : 0 < num) :
    bitsOfRatio num den =
      min ((exponentOf num den + 1074).toNat * 2 ^ 52 + roundedAt num den (exponentOf num den))
        (2047 * 2 ^ 52) := by
  rw [bitsOfRatio, if_neg (by omega)]
  rfl

theorem two_zpow_mul_two_pow (e : Int) : (2 : ℚ) ^ e * 2 ^ (-e).toNat = 2 ^ e.toNat := by
  rw [← zpow_natCast, ← zpow_natCast, ← zpow_add₀ two_ne_zero]
  congr 1
  omega

theorem scaled_lt_iff (num den c : Nat) (e : Int) :
    num * 2 ^ (-e).toNat < c * (den * 2 ^ e.toNat) ↔ (num : ℚ) < c * den * 2 ^ e := by
  have hpos : (0 : ℚ) < 2 ^ (-e).toNat := by positivity
  rw [← Nat.cast_lt (α := ℚ), ← mul_lt_mul_iff_left₀ (b := (num : ℚ)) hpos,
    mul_assoc _ _ ((2 : ℚ) ^ (-e).toNat), two_zpow_mul_two_pow]
  push_cast
  rw [mul_assoc]

theorem log2_bounds {n : Nat} (hn : 0 < n) :
    (2 : ℚ) ^ (n.log2 : Int) ≤ n ∧ (n : ℚ) < 2 ^ ((n.log2 : Int) + 1) := by
  constructor
  · exact_mod_cast Nat.log2_self_le hn.ne'
  · exact_mod_cast (Nat.lt_log2_self (n := n))

theorem guess_bounds {num den : Nat} (hnum : 0 < num) (hden : 0 < den) {g : Int}
    (hg : g = (num.log2 : Int) - den.log2 - 52) :
    (num : ℚ) < 2 ^ 53 * den * 2 ^ g ∧ (2 ^ 51 * den * 2 ^ g : ℚ) < num := by
  obtain ⟨hn, hn'⟩ := log2_bounds hnum
  obtain ⟨hd, hd'⟩ := log2_bounds hden
  constructor
  · calc (num : ℚ) < 2 ^ ((num.log2 : Int) + 1) := hn'
      _ = 2 ^ 53 * 2 ^ (den.log2 : Int) * 2 ^ g := by
        rw [← zpow_natCast, ← zpow_add₀ two_ne_zero, ← zpow_add₀ two_ne_zero]
        congr 1
        omega
      _ ≤ 2 ^ 53 * den * 2 ^ g := by gcongr
  · calc (2 ^ 51 * den * 2 ^ g : ℚ) < 2 ^ 51 * 2 ^ ((den.log2 : Int) + 1) * 2 ^ g := by gcongr
      _ = 2 ^ (num.log2 : Int) := by
        rw [← zpow_natCast, ← zpow_add₀ two_ne_zero, ← zpow_add₀ two_ne_zero]
        congr 1
        omega
      _ ≤ num := hn

theorem exponentOf_bounds {num den : Nat} (hnum : 0 < num) (hden : 0 < den) :
    (num : ℚ) < 2 ^ 53 * den * 2 ^ exponentOf num den ∧
      (-1074 < exponentOf num den → (2 ^ 52 * den * 2 ^ exponentOf num den : ℚ) ≤ num) := by
  simp only [exponentOf]
  generalize hg : (num.log2 : Int) - den.log2 - 52 = g
  obtain ⟨hupper, hlower⟩ := guess_bounds hnum hden hg.symm
  have htest : num * 2 ^ (-g).toNat / (den * 2 ^ g.toNat) < 2 ^ 52 ↔
      (num : ℚ) < 2 ^ 52 * den * 2 ^ g := by
    rw [Nat.div_lt_iff_lt_mul (by positivity), scaled_lt_iff]
    norm_num
  set e := if num * 2 ^ (-g).toNat / (den * 2 ^ g.toNat) < 2 ^ 52 then g - 1 else g with he
  have hbounds : (num : ℚ) < 2 ^ 53 * den * 2 ^ e ∧ (2 ^ 52 * den * 2 ^ e : ℚ) ≤ num := by
    rw [he]
    split
    next h =>
      rw [zpow_sub_one₀ two_ne_zero]
      exact ⟨by linarith [htest.mp h], by linarith⟩
    next h => exact ⟨hupper, not_lt.mp (mt htest.mpr h)⟩
  refine ⟨hbounds.1.trans_le ?_, fun h => ?_⟩
  · gcongr
    · norm_num
    · exact le_max_left _ _
  · rw [max_eq_left (by omega)]
    exact hbounds.2

theorem roundedAt_le {num den : Nat} {e : Int} (hden : 0 < den)
    (h : (num : ℚ) < 2 ^ 53 * den * 2 ^ e) : roundedAt num den e ≤ 2 ^ 53 :=
  roundHalfEven_le (by positivity) ((scaled_lt_iff ..).mpr (by exact_mod_cast h))

theorem le_roundedAt {num den : Nat} {e : Int} (hden : 0 < den)
    (h : (2 ^ 52 * den * 2 ^ e : ℚ) ≤ num) : 2 ^ 52 ≤ roundedAt num den e := by
  have hdiv : 2 ^ 52 ≤ num * 2 ^ (-e).toNat / (den * 2 ^ e.toNat) := by
    rw [Nat.le_div_iff_mul_le (by positivity)]
    exact not_lt.mp (mt (scaled_lt_iff ..).mp (not_lt.mpr (by exact_mod_cast h)))
  exact hdiv.trans (div_le_roundHalfEven ..)

theorem roundedAt_lt_iff {num den : Nat} (hden : 0 < den) :
    roundedAt num den 971 < 2 ^ 53 ↔ num < limit * den := by
  have hscaled : 0 < den * 2 ^ 971 := by positivity
  have htie := roundHalfEven_lt_iff num (2 ^ 52 - 1) hscaled
  have hlimit : 2 * num < (4 * (2 ^ 52 - 1) + 3) * (den * 2 ^ 971) ↔ num < limit * den := by
    rw [limit, pow_succ 2 970, show 4 * (2 ^ 52 - 1) + 3 = 2 ^ 54 - 1 by norm_num]
    generalize 2 ^ 54 - 1 = c
    generalize 2 ^ 970 = p
    have : c * (den * (p * 2)) = 2 * (c * p * den) := by ring
    omega
  rw [← hlimit, ← htie, roundedAt]
  simp only [Int.reduceNeg, Int.reduceToNat, pow_zero, mul_one]
  rfl

theorem lt_limit_iff (num den : Nat) :
    num < limit * den ↔ (num : ℚ) < (2 ^ 54 - 1) * den * 2 ^ (970 : Int) := by
  have hlimit : (limit : ℚ) = (2 ^ 54 - 1) * 2 ^ (970 : Int) := by
    rw [limit, Nat.cast_mul, Nat.cast_pow]
    norm_num only
    rfl
  rw [← Nat.cast_lt (α := ℚ), Nat.cast_mul, hlimit, mul_right_comm]

theorem bitsOfRatio_lt_iff {num den : Nat} (hden : 0 < den) :
    bitsOfRatio num den < 2047 * 2 ^ 52 ↔ num < limit * den := by
  obtain rfl | hnum := Nat.eq_zero_or_pos num
  · refine iff_of_true ?_ (by unfold limit; positivity)
    rw [bitsOfRatio, if_pos rfl]
    decide
  obtain ⟨hupper, hlower⟩ := exponentOf_bounds hnum hden
  have hround := roundedAt_le hden hupper
  rw [bitsOfRatio_of_pos hnum]
  obtain he | he | he := Int.lt_trichotomy (exponentOf num den) 971
  · have hpow : (2 : ℚ) ^ exponentOf num den ≤ 2 ^ (970 : Int) :=
      zpow_le_zpow_right₀ one_le_two (by omega)
    refine iff_of_true (by omega) ((lt_limit_iff ..).mpr (hupper.trans_le ?_))
    generalize (2 : ℚ) ^ (970 : Int) = p at hpow
    gcongr
    norm_num
  · rw [he] at hround ⊢
    rw [← roundedAt_lt_iff hden]
    omega
  · have hprecise := hlower (by omega)
    have hmin := le_roundedAt hden hprecise
    refine iff_of_false (by omega) (mt (lt_limit_iff ..).mp (not_lt.mpr (le_trans ?_ hprecise)))
    have hpow : 2 ^ 2 * (2 : ℚ) ^ (970 : Int) ≤ 2 ^ exponentOf num den := by
      rw [← zpow_natCast, ← zpow_add₀ two_ne_zero]
      exact zpow_le_zpow_right₀ one_le_two (by omega)
    generalize (2 : ℚ) ^ (970 : Int) = p at *
    have : (den : ℚ) * (2 ^ 2 * p) ≤ den * 2 ^ exponentOf num den := by gcongr
    linarith

def exponentField (bits : Nat) : Nat :=
  bits / 2 ^ 52 % 2048

def fraction (bits : Nat) : Nat :=
  bits % 2 ^ 52

theorem toNat_unpackExponent (b : BitVec Format.binary64.numBits) :
    (unpackExponent b).toNat = exponentField b.toNat := by
  simp [unpackExponent, exponentField, Nat.shiftRight_eq_div_pow]

theorem toNat_unpackMantissa (b : BitVec Format.binary64.numBits) :
    (unpackMantissa b).toNat = fraction b.toNat := by
  simp [unpackMantissa, fraction]

theorem unpackExponent_eq_iff (b : BitVec Format.binary64.numBits) (e : BitVec 11) :
    unpackExponent b = e ↔ exponentField b.toNat = e.toNat := by
  rw [← toNat_unpackExponent, BitVec.toNat_inj]

theorem unpackMantissa_eq_iff (b : BitVec Format.binary64.numBits) (m : BitVec 52) :
    unpackMantissa b = m ↔ fraction b.toNat = m.toNat := by
  rw [← toNat_unpackMantissa, BitVec.toNat_inj]

theorem packComponents_of_fields {b : BitVec Format.binary64.numBits} {e : BitVec 11}
    {m : BitVec 52} (he : unpackExponent b = e) (hm : unpackMantissa b = m) :
    packComponents .binary64 (Sign.ofBitVec (unpackSign b)) e m = b := by
  have hsign (v : BitVec 1) : (Sign.ofBitVec v).toBitVec = v := by
    rcases BitVec.eq_zero_or_eq_one v with rfl | rfl <;> rfl
  subst he hm
  simp only [packComponents, hsign, unpackSign, unpackExponent, unpackMantissa, BitVec.extractLsb]
  ext i hi
  grind

/-- No word of a NaN. -/
def IsOrdered (bits : Nat) : Prop :=
  exponentField bits = 2047 → fraction bits = 0

theorem log2_of_implicit {m : Nat} (hm : m < 2 ^ 52) : (2 ^ 52 + m).log2 = 52 := by
  rw [Nat.log2_eq_iff (by omega)]
  omega

theorem pack_unpack {b : BitVec Format.binary64.numBits} (hb : IsOrdered b.toNat) :
    UnpackedFloat.pack .binary64 (unpack .binary64 b) = b := by
  have hbias : ((Format.binary64.exponentBias : Nat) : Int) = 1023 := rfl
  have hm : (unpackMantissa b).toNat < 2 ^ 52 := (unpackMantissa b).isLt
  have he : (unpackExponent b).toNat < 2 ^ 11 := (unpackExponent b).isLt
  rw [UnpackedFloat.unpack]
  split
  next hexp =>
    have hfraction : unpackMantissa b = 0#52 :=
      (unpackMantissa_eq_iff b _).mpr (hb ((unpackExponent_eq_iff b _).mp hexp))
    rw [if_pos hfraction]
    exact packComponents_of_fields hexp hfraction
  next hexp =>
    split
    next hzero =>
      split
      next hfraction => exact packComponents_of_fields hzero hfraction
      next hfraction =>
        have hpos : 0 < (unpackMantissa b).toNat :=
          Nat.pos_of_ne_zero fun h => hfraction (BitVec.eq_of_toNat_eq h)
        have hlog : (unpackMantissa b).toNat.log2 < 52 := (Nat.log2_lt (by omega)).mpr hm
        simp only [UnpackedFloat.pack, hzero, hbias]
        rw [if_neg (by decide), if_neg (by simp [Format.mantissaBits]; omega)]
        exact packComponents_of_fields hzero (by simp)
    next hnonzero =>
      have hne : (unpackExponent b).toNat ≠ 2047 := fun h => hexp (BitVec.eq_of_toNat_eq h)
      have happ : (1#1 ++ unpackMantissa b).toNat = 2 ^ 52 + (unpackMantissa b).toNat := by
        rw [BitVec.toNat_append, ← Nat.shiftLeft_add_eq_or_of_lt hm]
        rfl
      simp only [UnpackedFloat.pack, happ, log2_of_implicit hm, hbias]
      rw [if_neg (by simp; omega), if_pos (show 52 + 1 = Format.binary64.mantissaBits from rfl)]
      refine packComponents_of_fields ?_ ?_
      · apply BitVec.eq_of_toNat_eq
        simp
        omega
      · apply BitVec.eq_of_toNat_eq
        simp
        omega

theorem toBits_ofBits {w : UInt64} (hw : IsOrdered w.toNat) : (Float.ofBits w).toBits = w := by
  rw [Float.ofBits, Float.toBits, Float.Model.ofBits, Float.Model.pack]
  exact UInt64.toBitVec_inj.mp (pack_unpack hw)

theorem unpack_of_special {b : BitVec Format.binary64.numBits} (hb : exponentField b.toNat = 2047) :
    unpack .binary64 b =
      if fraction b.toNat = 0 then .infinity (Sign.ofBitVec (unpackSign b)) else .notANumber := by
  have hexp : unpackExponent b = -1#11 := (unpackExponent_eq_iff b _).mpr hb
  have hfraction : unpackMantissa b = 0#52 ↔ fraction b.toNat = 0 := unpackMantissa_eq_iff b _
  rw [UnpackedFloat.unpack, if_pos hexp]
  simp only [hfraction]

theorem unpack_isFinite {b : BitVec Format.binary64.numBits} (hb : exponentField b.toNat ≠ 2047) :
    (unpack .binary64 b).isInf = false ∧ (unpack .binary64 b).isNaN = false := by
  have hexp : unpackExponent b ≠ -1#11 := mt (unpackExponent_eq_iff b _).mp hb
  rw [UnpackedFloat.unpack, if_neg hexp]
  split
  · split <;> exact ⟨rfl, rfl⟩
  · exact ⟨rfl, rfl⟩

theorem isInf_iff (x : Float) :
    x.isInf = true ↔ exponentField x.toBits.toNat = 2047 ∧ fraction x.toBits.toNat = 0 := by
  change (unpack .binary64 x.toBits.toBitVec).isInf = true ↔ _
  by_cases h : exponentField x.toBits.toNat = 2047
  · rw [unpack_of_special h, UInt64.toNat_toBitVec]
    split <;> simp_all [UnpackedFloat.isInf]
  · simp [unpack_isFinite h, h]

theorem isNaN_iff (x : Float) :
    x.isNaN = true ↔ exponentField x.toBits.toNat = 2047 ∧ fraction x.toBits.toNat ≠ 0 := by
  change (unpack .binary64 x.toBits.toBitVec).isNaN = true ↔ _
  by_cases h : exponentField x.toBits.toNat = 2047
  · rw [unpack_of_special h, UInt64.toNat_toBitVec]
    split <;> simp_all [UnpackedFloat.isNaN]
  · simp [unpack_isFinite h, h]

theorem ofFloat?_eq_none_iff (x : Float) :
    Dyadic.ofFloat? x = none ↔ x.isInf = true ∨ x.isNaN = true := by
  rw [isInf_iff, isNaN_iff, ← and_or_left, and_iff_left (em _)]
  simp only [Dyadic.ofFloat?, Dyadic.ofBits?, exponentField, Nat.pow_eq]
  split
  next h => simp [h]
  next h => split <;> simp [h]

theorem isNaN_of_ofFloat? {x : Float} {d : Dyadic} (hd : Dyadic.ofFloat? x = some d) :
    x.isNaN = false := by
  rw [← Bool.not_eq_true]
  intro h
  rw [(ofFloat?_eq_none_iff x).mpr (.inr h)] at hd
  cases hd

theorem isInf_of_isNaN {x : Float} (hx : x.isNaN = true) : x.isInf = false := by
  rw [← Bool.not_eq_true, isInf_iff]
  exact fun ⟨_, h⟩ => ((isNaN_iff x).mp hx).2 h

theorem bitsOfRatio_le (num den : Nat) : bitsOfRatio num den ≤ 2047 * 2 ^ 52 := by
  obtain rfl | hnum := Nat.eq_zero_or_pos num
  · exact Nat.zero_le _
  · exact (bitsOfRatio_of_pos hnum).trans_le (min_le_right _ _)

theorem le_bitsOfRatio_one {n : Nat} (hn : 0 < n) : 2 ^ 52 ≤ bitsOfRatio n 1 := by
  have he : -53 ≤ exponentOf n 1 := by
    simp only [exponentOf]
    have : Nat.log2 1 = 0 := rfl
    split <;> omega
  rw [bitsOfRatio_of_pos hn]
  omega

theorem toNat_toBits_ofRatio (negative : Bool) (num den : Nat) :
    (ofRatio negative num den).toBits.toNat =
      bitsOfRatio num den + if negative then 2 ^ 63 else 0 := by
  have hle := bitsOfRatio_le num den
  have hlt : bitsOfRatio num den + (if negative then 2 ^ 63 else 0) < 2 ^ 64 := by
    split <;> omega
  have hnat : (UInt64.ofNat (bitsOfRatio num den + if negative then 2 ^ 63 else 0)).toNat =
      bitsOfRatio num den + if negative then 2 ^ 63 else 0 :=
    UInt64.toNat_ofNat_of_lt hlt
  have hordered : IsOrdered (bitsOfRatio num den + if negative then 2 ^ 63 else 0) := by
    simp only [IsOrdered, exponentField, fraction]
    split <;> omega
  rw [ofRatio]
  simp only [Nat.pow_eq]
  rw [toBits_ofBits (by rwa [hnat]), hnat]

theorem exponentField_ofRatio (negative : Bool) (num den : Nat) :
    exponentField (ofRatio negative num den).toBits.toNat = bitsOfRatio num den / 2 ^ 52 := by
  have hle := bitsOfRatio_le num den
  rw [toNat_toBits_ofRatio, exponentField]
  split <;> omega

theorem ofFloat?_ofRatio_eq_none_iff {negative : Bool} {num den : Nat} (hden : 0 < den) :
    Dyadic.ofFloat? (ofRatio negative num den) = none ↔ limit * den ≤ num := by
  have hle := bitsOfRatio_le num den
  rw [ofFloat?_eq_none_iff, isInf_iff, isNaN_iff, ← and_or_left, and_iff_left (em _),
    exponentField_ofRatio, ← not_lt, ← bitsOfRatio_lt_iff hden]
  omega

theorem isInf_ofRatio_iff (negative : Bool) (num : Nat) {den : Nat} (hden : 0 < den) :
    (ofRatio negative num den).isInf = true ↔ limit * den ≤ num := by
  have hle := bitsOfRatio_le num den
  rw [isInf_iff, exponentField_ofRatio, toNat_toBits_ofRatio, fraction, ← not_lt,
    ← bitsOfRatio_lt_iff hden]
  split <;> omega

theorem isNaN_ofRatio (negative : Bool) (num den : Nat) :
    (ofRatio negative num den).isNaN = false := by
  have hle := bitsOfRatio_le num den
  rw [← Bool.not_eq_true, isNaN_iff, exponentField_ofRatio, toNat_toBits_ofRatio, fraction]
  split <;> omega

theorem ofInt?_eq_some {i : Int} {x : Float} (hx : ofInt? i = some x) :
    x = ofRatio (decide (i < 0)) i.natAbs 1 ∧ x.isInf = false ∧ x.isNaN = false := by
  rw [ofInt?] at hx
  split at hx
  next => cases hx
  next hinf =>
    cases hx
    exact ⟨rfl, Bool.eq_false_iff.mpr hinf, isNaN_ofRatio ..⟩

theorem magnitude_ofInt?_ne_zero {i : Int} {x : Float} {d : Dyadic} (hi : i ≠ 0)
    (hx : ofInt? i = some x) (hd : Dyadic.ofFloat? x = some d) : d.magnitude.1 ≠ 0 := by
  have hfield : exponentField x.toBits.toNat ≠ 0 := by
    have hle := le_bitsOfRatio_one (Int.natAbs_pos.mpr hi)
    rw [(ofInt?_eq_some hx).1, exponentField_ofRatio]
    omega
  have hmantissa : d.mantissa ≠ 0 := by
    simp only [Dyadic.ofFloat?, Dyadic.ofBits?, Nat.pow_eq] at hd
    simp only [exponentField] at hfield
    grind
  exact Nat.mul_ne_zero hmantissa (Nat.two_pow_pos _).ne'

theorem ofInt?_eq_none_iff (i : Int) : ofInt? i = none ↔ limit ≤ i.natAbs := by
  have hinf := isInf_ofRatio_iff (decide (i < 0)) i.natAbs one_pos
  generalize limit = bound at *
  rw [mul_one] at hinf
  rw [ofInt?, ← hinf]
  split
  next h => exact iff_of_true rfl h
  next h => exact iff_of_false nofun h

theorem magnitude_lt_limit {x : Float} {d : Dyadic} (hd : Dyadic.ofFloat? x = some d) :
    d.magnitude.1 < limit * d.magnitude.2 := by
  have hfields : d.mantissa ≤ 2 ^ 53 - 1 ∧ d.exponent ≤ 971 := by
    simp only [Dyadic.ofFloat?, Dyadic.ofBits?, Nat.pow_eq] at hd
    grind
  rw [Dyadic.magnitude, limit]
  generalize hk : 970 = k
  have hpow : 2 ^ d.exponent.toNat ≤ 2 ^ k * 2 :=
    (Nat.pow_le_pow_right two_pos (by omega)).trans_eq (pow_succ 2 k)
  have hpos : 0 < 2 ^ k := Nat.two_pow_pos k
  calc d.mantissa * 2 ^ d.exponent.toNat ≤ (2 ^ 53 - 1) * (2 ^ k * 2) :=
        Nat.mul_le_mul hfields.1 hpow
    _ < (2 ^ 54 - 1) * 2 ^ k := by omega
    _ ≤ (2 ^ 54 - 1) * 2 ^ k * 2 ^ (-d.exponent).toNat :=
      Nat.le_mul_of_pos_right _ (Nat.two_pow_pos _)

end Float64

end StringLambda
