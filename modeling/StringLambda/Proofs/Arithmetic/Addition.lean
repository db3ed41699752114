import StringLambda.Proofs.Arithmetic.Exactness

namespace StringLambda

/-! Addition of floats is correctly rounded: the sum of two finite floats is the float nearest to
their exact sum. -/

open Float.Model Float.Model.UnpackedFloat

/-- An integer cut off from `num / den`, with what its two extra bits say of the rest: whether it is
at least a half, and whether it is neither nothing nor just a half. -/
structure CutsOff (em : ExtendedMantissa) (num den : Nat) : Prop where
  mantissa_eq : em.mantissa = num / den
  roundBit_iff : em.roundBit = true ↔ den ≤ 2 * (num % den)
  stickyBit_iff : em.stickyBit = true ↔ 2 * (num % den) ≠ 0 ∧ 2 * (num % den) ≠ den

namespace CutsOff

theorem ofMantissa (n : Nat) : CutsOff (.ofMantissaAndAccuracy n .exact) n 1 where
  mantissa_eq := (Nat.div_one n).symm
  roundBit_iff := by simp [ExtendedMantissa.ofMantissaAndAccuracy, Nat.mod_one]
  stickyBit_iff := by simp [ExtendedMantissa.ofMantissaAndAccuracy, Nat.mod_one]

variable {em : ExtendedMantissa} {num den : Nat}

theorem shiftRightOne (h : CutsOff em num den) (hden : 0 < den) :
    CutsOff em.shiftRightOne num (den * 2) := by
  have hmod : num % (den * 2) = num % den + den * (num / den % 2) := Nat.mod_mul
  have hlt : num % den < den := Nat.mod_lt num hden
  have hround := h.roundBit_iff
  have hsticky := h.stickyBit_iff
  refine ⟨?_, ?_, ?_⟩
  · rw [ExtendedMantissa.shiftRightOne, h.mantissa_eq, Nat.div_div_eq_div_mul]
  · simp only [ExtendedMantissa.shiftRightOne, h.mantissa_eq, hmod]
    obtain hbit | hbit := Nat.mod_two_eq_zero_or_one (num / den) <;> rw [hbit] <;> simp <;> omega
  · simp only [ExtendedMantissa.shiftRightOne, Bool.or_eq_true, hround, hsticky, hmod]
    obtain hbit | hbit := Nat.mod_two_eq_zero_or_one (num / den) <;> rw [hbit] <;> omega

theorem shiftRight (h : CutsOff em num den) (hden : 0 < den) (k : Nat) :
    CutsOff (em >>> k) num (den * 2 ^ k) := by
  change CutsOff (k.repeat ExtendedMantissa.shiftRightOne em) _ _
  induction k with
  | zero => simpa [Nat.repeat] using h
  | succ k ih =>
      rw [pow_succ, ← mul_assoc]
      exact ih.shiftRightOne (by positivity)

theorem roundedMantissa_eq (h : CutsOff em num den) :
    em.roundedMantissa = roundHalfEven num den := by
  obtain ⟨mantissa, roundBit, stickyBit⟩ := em
  obtain ⟨rfl, hround, hsticky⟩ := h
  cases roundBit <;> cases stickyBit <;>
    simp only [ExtendedMantissa.roundedMantissa, ExtendedMantissa.accuracy,
      Accuracy.roundToNearestEven, roundHalfEven] <;> grind

end CutsOff

theorem roundHalfEven_mul_left (num den : Nat) {c : Nat} (hc : 0 < c) :
    roundHalfEven (c * num) (c * den) = roundHalfEven num den := by
  have hlt (a b : Nat) : 2 * (c * a) < c * b ↔ 2 * a < b := by
    rw [mul_left_comm]
    exact Nat.mul_lt_mul_left hc
  have hgt (a b : Nat) : c * b < 2 * (c * a) ↔ b < 2 * a := by
    rw [mul_left_comm]
    exact Nat.mul_lt_mul_left hc
  simp only [roundHalfEven, Nat.mul_div_mul_left _ _ hc, Nat.mul_mod_mul_left, hlt, hgt]

namespace Float64

variable {num den num' den' : Nat}

theorem roundedAt_congr (hden : 0 < den) (hden' : 0 < den') (h : num * den' = num' * den)
    (e : Int) : roundedAt num den e = roundedAt num' den' e := by
  rw [roundedAt, roundedAt, ← roundHalfEven_mul_left _ _ hden',
    ← roundHalfEven_mul_left (num' * _) _ hden]
  congr 1
  · rw [← mul_assoc, ← mul_assoc, mul_comm den', h, mul_comm den]
  · ring

theorem exponentOf_congr (hnum : 0 < num) (hden : 0 < den) (hden' : 0 < den')
    (h : num * den' = num' * den) : exponentOf num' den' = exponentOf num den := by
  have hnum' : 0 < num' := Nat.pos_of_mul_pos_right (h ▸ Nat.mul_pos hnum hden')
  have hq : (num : ℚ) * den' = num' * den := by exact_mod_cast h
  have hq1 : (0 : ℚ) < den := by exact_mod_cast hden
  have hq2 : (0 : ℚ) < den' := by exact_mod_cast hden'
  obtain ⟨hupper, hlower⟩ := exponentOf_bounds hnum hden
  refine exponentOf_eq hnum' hden' (le_max_right _ _) ?_ fun hmore => ?_
  · rw [← mul_lt_mul_iff_left₀ hq1, ← hq]
    calc (num : ℚ) * den' < 2 ^ 53 * den * 2 ^ exponentOf num den * den' := by gcongr
      _ = _ := by ring
  · rw [← mul_le_mul_iff_left₀ hq1, ← hq]
    calc _ = (2 ^ 52 * den * 2 ^ exponentOf num den : ℚ) * den' := by ring
      _ ≤ num * den' := by gcongr; exact hlower hmore

theorem ofRatio_congr (negative : Bool) (hden : 0 < den) (hden' : 0 < den')
    (h : num * den' = num' * den) : ofRatio negative num den = ofRatio negative num' den' := by
  have hbits : bitsOfRatio num den = bitsOfRatio num' den' := by
    obtain rfl | hnum := Nat.eq_zero_or_pos num
    · have : num' = 0 := by simpa [hden.ne'] using h.symm
      rw [this, bitsOfRatio, bitsOfRatio, if_pos rfl, if_pos rfl]
    · have hnum' : 0 < num' := Nat.pos_of_mul_pos_right (h ▸ Nat.mul_pos hnum hden')
      rw [bitsOfRatio_of_pos hnum, bitsOfRatio_of_pos hnum', exponentOf_congr hnum hden hden' h,
        roundedAt_congr hden hden' h]
  rw [ofRatio, ofRatio, hbits]

def targetOf (m : Nat) (e : Int) : Int :=
  Format.binary64.targetExponent (totalExponent m e)

theorem targetOf_eq (m : Nat) (e : Int) : targetOf m e = max ((m.log2 : Int) + e - 52) (-1074) := by
  simp only [targetOf, Format.targetExponent, totalExponent, Format.minExponent,
    Format.mantissaBits]
  norm_num
  congr 1
  ring

theorem toNat_packComponents (s : Sign) (e : BitVec 11) (m : BitVec 52) :
    (packComponents .binary64 s e m).toNat =
      e.toNat * 2 ^ 52 + m.toNat + s.toBitVec.toNat * 2 ^ 63 := by
  have hm : m.toNat < 2 ^ 52 := m.isLt
  have he : e.toNat < 2 ^ 11 := e.isLt
  rw [packComponents, BitVec.toNat_append, BitVec.toNat_append, ← Nat.shiftLeft_add_eq_or_of_lt hm,
    ← Nat.shiftLeft_add_eq_or_of_lt he, Nat.shiftLeft_eq, Nat.shiftLeft_eq]
  ring

theorem toNat_pack_finite (s : Sign) {m : Nat} {e : Int} (hm : 0 < m) (hlt : m < 2 ^ 53)
    (hleast : -1074 ≤ e) (hprecise : -1074 < e → 2 ^ 52 ≤ m) :
    (UnpackedFloat.pack .binary64 (.finite s m e hm)).toNat =
      min ((e + 1074).toNat * 2 ^ 52 + m) (2047 * 2 ^ 52) + s.toBitVec.toNat * 2 ^ 63 := by
  have hbias : ((Format.binary64.exponentBias : Nat) : Int) = 1023 := rfl
  have hbits : Format.binary64.mantissaBits = 53 := rfl
  have hfull : m.log2 + 1 = 53 ↔ 2 ^ 52 ≤ m := by
    rw [Nat.succ_inj, Nat.log2_eq_iff hm.ne']
    omega
  simp only [UnpackedFloat.pack, hbias, hbits, hfull]
  split
  next hlarge =>
    simp at hlarge
    rw [min_eq_right (by omega), packedInfinity, toNat_packComponents]
    simp
  next hsmall =>
    simp at hsmall
    rw [min_eq_left (by omega)]
    split
    next hnormal =>
      rw [toNat_packComponents]
      simp
      omega
    next hsubnormal =>
      rw [toNat_packComponents]
      simp
      omega

theorem shiftToTargetExponent_eq {m : Nat} {e t : Int} (ht : targetOf m e = t) :
    shiftToTargetExponent .binary64 m e .exact =
      (ExtendedMantissa.ofMantissaAndAccuracy m .exact >>> (t - e).toNat, e + (t - e).toNat) := by
  rw [← ht]
  rfl

theorem toNat_pack_roundWithAccuracy (s : Sign) {m : Nat} {e t : Int} (ht : targetOf m e = t)
    (hle : e ≤ t) {r : Nat} (hr : roundHalfEven m (2 ^ (t - e).toNat) = r) (hupper : r ≤ 2 ^ 53)
    (hprecise : -1074 < t → 2 ^ 52 ≤ r) :
    (UnpackedFloat.pack .binary64 (roundWithAccuracy .binary64 s m e .exact)).toNat =
      min ((t + 1074).toNat * 2 ^ 52 + r) (2047 * 2 ^ 52) + s.toBitVec.toNat * 2 ^ 63 := by
  have hleast : -1074 ≤ t := by rw [← ht, targetOf_eq]; exact le_max_right _ _
  have hrounded := ((CutsOff.ofMantissa m).shiftRight one_pos (t - e).toNat).roundedMantissa_eq
  rw [one_mul, hr] at hrounded
  have he : e + (t - e).toNat = t := by omega
  have htarget := targetOf_eq r t
  simp only [roundWithAccuracy, shiftToTargetExponent_eq ht, hrounded, he,
    shiftToTargetExponent_eq htarget]
  obtain hlt | rfl := Nat.lt_or_eq_of_le hupper
  · have hlog : r.log2 < 53 := by
      obtain rfl | hpos := Nat.eq_zero_or_pos r
      · decide
      · exact (Nat.log2_lt hpos.ne').mpr hlt
    have hshift : (max ((r.log2 : Int) + t - 52) (-1074) - t).toNat = 0 := by omega
    have hmantissa : (ExtendedMantissa.ofMantissaAndAccuracy r .exact >>> 0).mantissa = r := rfl
    simp only [hshift, hmantissa, Nat.cast_zero, add_zero]
    split
    next hzero =>
      subst hzero
      obtain rfl : t = -1074 := by
        by_contra h
        have := hprecise (by omega)
        omega
      cases s <;> rfl
    next hpos => exact toNat_pack_finite s _ hlt hleast hprecise
  · have hlog : (2 ^ 53).log2 = 53 := Nat.log2_two_pow
    have hshift : (max (((2 ^ 53 : Nat).log2 : Int) + t - 52) (-1074) - t).toNat = 1 := by
      rw [hlog]
      omega
    have hmantissa : (ExtendedMantissa.ofMantissaAndAccuracy (2 ^ 53) .exact >>> 1).mantissa =
        2 ^ 52 := rfl
    simp only [hshift, hmantissa]
    rw [dif_neg (Nat.two_pow_pos 52).ne', toNat_pack_finite s _ (by norm_num) (by omega)
      (fun _ => le_rfl)]
    have hcarry : (t + (1 : Nat) + 1074).toNat * 2 ^ 52 + 2 ^ 52 =
        (t + 1074).toNat * 2 ^ 52 + 2 ^ 53 := by
      have : (t + (1 : Nat) + 1074).toNat = (t + 1074).toNat + 1 := by omega
      rw [this]
      ring
    rw [hcarry]

theorem targetOf_mul_two_pow {m : Nat} (hm : 0 < m) (e : Int) (k : Nat) :
    targetOf (m * 2 ^ k) (e - k) = targetOf m e := by
  have hlog : (m * 2 ^ k).log2 = m.log2 + k := by
    rw [Nat.log2_eq_iff (by positivity), pow_add, add_right_comm, pow_add]
    exact ⟨Nat.mul_le_mul_right _ (Nat.log2_self_le hm.ne'),
      Nat.mul_lt_mul_of_pos_right Nat.lt_log2_self (by positivity)⟩
  rw [targetOf_eq, targetOf_eq, hlog]
  congr 1
  push_cast
  ring

theorem toNat_pack_round (s : Sign) {m : Nat} (hm : 0 < m) (e : Int) :
    (UnpackedFloat.pack .binary64 (UnpackedFloat.round .binary64 s m e)).toNat =
      bitsOfRatio (m * 2 ^ e.toNat) (2 ^ (-e).toNat) + s.toBitVec.toNat * 2 ^ 63 := by
  have hnum : 0 < m * 2 ^ e.toNat := by positivity
  have hden : 0 < 2 ^ (-e).toNat := by positivity
  have hexponent := (exponentOf_scaled hm e).trans (targetOf_eq m e).symm
  obtain ⟨hupper, hlower⟩ := exponentOf_bounds hnum hden
  have hround := roundedAt_le hden hupper
  have hprecise := fun h => le_roundedAt hden (hlower h)
  rw [bitsOfRatio_of_pos hnum]
  generalize exponentOf (m * 2 ^ e.toNat) (2 ^ (-e).toNat) = t at *
  have ht : targetOf (m * 2 ^ (e - t).toNat) (e - (e - t).toNat) = t :=
    (targetOf_mul_two_pow hm e _).trans hexponent.symm
  -- both quotients are the digits in units of the target exponent
  have hr : roundHalfEven (m * 2 ^ (e - t).toNat) (2 ^ (t - (e - (e - t).toNat)).toNat) =
      roundedAt (m * 2 ^ e.toNat) (2 ^ (-e).toNat) t := by
    obtain ⟨c, hnum', hden'⟩ : ∃ c, e.toNat + (-t).toNat = c + (e - t).toNat ∧
        (-e).toNat + t.toNat = c + (t - (e - (e - t).toNat)).toNat :=
      ⟨e.toNat + (-t).toNat - (e - t).toNat, by omega, by omega⟩
    rw [roundedAt, mul_assoc, ← pow_add, hnum', ← pow_add, hden', pow_add, pow_add, mul_left_comm,
      roundHalfEven_mul_left _ _ (by positivity)]
  rw [UnpackedFloat.round, ← targetOf, ← hexponent]
  simp only [decreaseExponent, Nat.shiftLeft_eq]
  exact toNat_pack_roundWithAccuracy s ht (by omega) hr hround hprecise

end Float64

namespace Dyadic

def value (d : Dyadic) : ℚ :=
  if d.negative then -d.modulus else d.modulus

def sign (d : Dyadic) : Sign :=
  if d.negative then .negative else .positive

theorem value_eq (d : Dyadic) : d.value = d.sign.apply d.mantissa * 2 ^ d.exponent := by
  rw [value, sign, modulus]
  split <;> simp [Sign.apply]

end Dyadic

namespace Float64

theorem eq_of_toNat_toBits {x y : Float} (h : x.toBits.toNat = y.toBits.toNat) : x = y := by
  obtain ⟨⟨a, ha⟩⟩ := x
  obtain ⟨⟨b, hb⟩⟩ := y
  obtain rfl : a = b := UInt64.toNat_inj.mp h
  rfl

theorem ofBitVec_unpackSign (b : BitVec Format.binary64.numBits) :
    Sign.ofBitVec (unpackSign b) =
      if b.toNat / 2 ^ 63 % 2 == 1 then .negative else .positive := by
  have hbit : (unpackSign b).toNat = b.toNat / 2 ^ 63 % 2 := by
    simp [unpackSign, Nat.shiftRight_eq_div_pow]
  obtain h | h := BitVec.eq_zero_or_eq_one (unpackSign b) <;> rw [h] at hbit ⊢ <;>
    rw [← hbit] <;> rfl

theorem unpack_of_ofBits? {b : BitVec Format.binary64.numBits} {d : Dyadic}
    (hd : Dyadic.ofBits? b.toNat = some d) (hpos : 0 < d.mantissa) :
    unpack .binary64 b = .finite d.sign d.mantissa d.exponent hpos := by
  have hbias : ((Format.binary64.exponentBias : Nat) : Int) = 1023 := rfl
  have hfraction := toNat_unpackMantissa b
  have hexponent := toNat_unpackExponent b
  have hsign := ofBitVec_unpackSign b
  simp only [exponentField, fraction] at hfraction hexponent
  simp only [Dyadic.ofBits?, Nat.pow_eq] at hd
  rw [UnpackedFloat.unpack]
  split at hd
  next => cases hd
  next hfinite =>
    rw [if_neg (by rw [unpackExponent_eq_iff]; exact hfinite)]
    split at hd
    next hzero =>
      cases hd
      rw [if_pos (by rw [unpackExponent_eq_iff]; exact hzero)]
      rw [dif_neg (by rw [unpackMantissa_eq_iff]; exact hpos.ne')]
      simp only [hsign, Dyadic.sign, hfraction, hexponent, hbias, hzero]
      rfl
    next hnormal =>
      cases hd
      have happ : (1#1 ++ unpackMantissa b).toNat = b.toNat % 2 ^ 52 + 2 ^ 52 := by
        rw [BitVec.toNat_append, ← Nat.shiftLeft_add_eq_or_of_lt (unpackMantissa b).isLt,
          hfraction, add_comm]
        rfl
      rw [if_neg (by rw [unpackExponent_eq_iff]; exact hnormal)]
      simp only [hsign, Dyadic.sign, happ, hexponent, hbias]
      rfl

theorem normalize_eq_round {total : Int} (htotal : total ≠ 0) (e : Int) (zeroSign : Sign) :
    UnpackedFloat.normalize .binary64 total e zeroSign = UnpackedFloat.round .binary64
      (if total < 0 then .negative else .positive) total.natAbs e := by
  obtain hlt | heq | hgt := Int.lt_trichotomy total 0
  · have hcompare : compare total 0 = .lt := by rwa [Int.compare_eq_lt]
    simp only [UnpackedFloat.normalize, hcompare, if_pos hlt]
    rw [show (-total).toNat = total.natAbs by omega]
  · exact absurd heq htotal
  · have hcompare : compare total 0 = .gt := by rwa [Int.compare_eq_gt]
    simp only [UnpackedFloat.normalize, hcompare, if_neg hgt.not_gt]
    rw [show total.toNat = total.natAbs by omega]

theorem apply_shifted (s : Sign) (m : Nat) {e t : Int} (h : t ≤ e) :
    ((s.apply (m * 2 ^ (e - t).toNat : Nat) : Int) : ℚ) * 2 ^ t = s.apply m * 2 ^ e := by
  have hpow : (2 : ℚ) ^ (e - t).toNat * 2 ^ t = 2 ^ e := by
    rw [← zpow_natCast, ← zpow_add₀ two_ne_zero]
    congr 1
    omega
  cases s <;> simp [Sign.apply, mul_assoc, hpow]

theorem add_eq_ofRatio {x y : Float} {d e : Dyadic} (hd : Dyadic.ofFloat? x = some d)
    (he : Dyadic.ofFloat? y = some e) (hd' : 0 < d.mantissa) (he' : 0 < e.mantissa) {n : Int}
    {den : Nat} (hn : n ≠ 0) (hden : 0 < den) (hsum : d.value + e.value = n / den) :
    x + y = ofRatio (decide (n < 0)) n.natAbs den := by
  generalize hs : min d.exponent e.exponent = s
  generalize htotal : d.sign.apply (d.mantissa * 2 ^ (d.exponent - s).toNat : Nat) +
    e.sign.apply (e.mantissa * 2 ^ (e.exponent - s).toNat : Nat) = total
  have hpow : (0 : ℚ) < 2 ^ s := by positivity
  have hden' : (0 : ℚ) < den := by exact_mod_cast hden
  have hvalue : (total : ℚ) * 2 ^ s * den = n := by
    rw [← htotal, Int.cast_add, add_mul, apply_shifted _ _ (hs ▸ min_le_left ..),
      apply_shifted _ _ (hs ▸ min_le_right ..), ← d.value_eq, ← e.value_eq, hsum,
      div_mul_cancel₀ _ hden'.ne']
  have hsign : total < 0 ↔ n < 0 := by
    rw [← Int.cast_lt_zero (R := ℚ), ← Int.cast_lt_zero (R := ℚ), ← hvalue, mul_assoc,
      ← mul_lt_mul_iff_left₀ (mul_pos hpow hden'), zero_mul]
  have htotal' : total ≠ 0 := by
    rintro rfl
    exact hn (by simpa using hvalue.symm)
  have hadd : x + y = .ofModel (.pack (UnpackedFloat.round .binary64
      (if total < 0 then .negative else .positive) total.natAbs s)) := by
    change Float.ofModel (.pack (UnpackedFloat.add .binary64 (unpack .binary64 x.toBits.toBitVec)
      (unpack .binary64 y.toBits.toBitVec))) = _
    rw [unpack_of_ofBits? hd hd', unpack_of_ofBits? he he', UnpackedFloat.add]
    simp only [decreaseExponent, Nat.shiftLeft_eq, hs, htotal, normalize_eq_round htotal']
  have hbits : (x + y).toBits.toNat = bitsOfRatio (total.natAbs * 2 ^ s.toNat) (2 ^ (-s).toNat) +
      if total < 0 then 2 ^ 63 else 0 := by
    rw [hadd]
    refine (toNat_pack_round _ (Int.natAbs_pos.mpr htotal') s).trans ?_
    split <;> rfl
  have hratio : x + y = ofRatio (decide (n < 0)) (total.natAbs * 2 ^ s.toNat) (2 ^ (-s).toNat) := by
    refine eq_of_toNat_toBits (hbits.trans ?_)
    rw [toNat_toBits_ofRatio]
    simp only [hsign, decide_eq_true_eq]
  rw [hratio]
  refine ofRatio_congr _ (by positivity) hden ?_
  rw [← Nat.cast_inj (R := ℚ)]
  push_cast
  rw [Nat.cast_natAbs, Nat.cast_natAbs, Int.cast_abs, Int.cast_abs, ← hvalue, abs_mul, abs_mul,
    abs_of_pos hpow, abs_of_pos hden', ← two_zpow_mul_two_pow]
  ring

end Float64

end StringLambda
