import StringLambda.Proofs.Arithmetic.Format

namespace StringLambda

/-! What the float format holds exactly: which fractions are floats, and which integer the float
nearest to an integer is. -/

namespace Dyadic

def modulus (d : Dyadic) : ℚ :=
  d.mantissa * 2 ^ d.exponent

theorem magnitude_fst (d : Dyadic) : (d.magnitude.1 : ℚ) = d.modulus * d.magnitude.2 := by
  rw [magnitude, modulus]
  push_cast
  rw [Nat.pow_eq, Nat.pow_eq, mul_assoc]
  push_cast
  rw [Float64.two_zpow_mul_two_pow]

theorem magnitude_fst_of_modulus {d : Dyadic} {n : Nat} (h : d.modulus = n) :
    d.magnitude.1 = n * d.magnitude.2 := by
  have hcast := d.magnitude_fst
  rw [h] at hcast
  exact_mod_cast hcast

theorem truncate_of_modulus {d : Dyadic} {n : Nat} (h : d.modulus = n) :
    d.truncate = if d.negative then -(n : Int) else n := by
  have hden : (d.magnitude.2 : Int) ≠ 0 := by
    exact_mod_cast (Nat.two_pow_pos (-d.exponent).toNat).ne'
  simp only [truncate, ratio, magnitude_fst_of_modulus h, Nat.cast_mul]
  split
  · rw [← neg_mul, Int.mul_tdiv_cancel _ hden]
  · rw [Int.mul_tdiv_cancel _ hden]

end Dyadic

theorem roundHalfEven_mul (c : Nat) {den : Nat} (hden : 0 < den) :
    roundHalfEven (c * den) den = c := by
  simp [roundHalfEven, Nat.mul_div_cancel _ hden, hden]

namespace Float64

variable {num den : Nat}

theorem ofFloat?_ofRatio_zero (negative : Bool) (den : Nat) :
    Dyadic.ofFloat? (ofRatio negative 0 den) = some ⟨negative, 0, -1074⟩ := by
  have hbits : (ofRatio negative 0 den).toBits.toNat = if negative then 2 ^ 63 else 0 := by
    rw [toNat_toBits_ofRatio, bitsOfRatio, if_pos rfl, Nat.zero_add]
  rw [Dyadic.ofFloat?, hbits]
  cases negative <;> rfl

theorem ofBits?_of_fields (negative : Bool) {biased fraction : Nat} (hbiased : biased < 2047)
    (hfraction : fraction < 2 ^ 52) :
    Dyadic.ofBits? (biased * 2 ^ 52 + fraction + if negative then 2 ^ 63 else 0) =
      some (if biased = 0 then ⟨negative, fraction, -1074⟩
        else ⟨negative, fraction + 2 ^ 52, biased - 1075⟩) := by
  generalize hbits : biased * 2 ^ 52 + fraction + (if negative then 2 ^ 63 else 0) = bits
  have hsign : (bits / 2 ^ 63 % 2 == 1) = negative := by
    cases negative <;> grind
  have hexponent : bits / 2 ^ 52 % 2048 = biased := by
    split at hbits <;> omega
  have hmantissa : bits % 2 ^ 52 = fraction := by
    split at hbits <;> omega
  simp only [Dyadic.ofBits?, Nat.pow_eq, hsign, hexponent, hmantissa]
  rw [if_neg (by omega)]
  split <;> rfl

theorem exists_ofFloat?_ofRatio (hnum : 0 < num) (hden : 0 < den) (hlimit : num < limit * den)
    (negative : Bool) :
    ∃ d, Dyadic.ofFloat? (ofRatio negative num den) = some d ∧ d.negative = negative ∧
      d.modulus = roundedAt num den (exponentOf num den) * 2 ^ exponentOf num den := by
  obtain ⟨hupper, hlower⟩ := exponentOf_bounds hnum hden
  have hround := roundedAt_le hden hupper
  have hprecise := fun h => le_roundedAt hden (hlower h)
  have hleast : -1074 ≤ exponentOf num den := le_max_right _ _
  have hfinite := (bitsOfRatio_lt_iff hden).mpr hlimit
  have hbits := toNat_toBits_ofRatio negative num den
  rw [bitsOfRatio_of_pos hnum] at hfinite hbits
  generalize exponentOf num den = e at *
  generalize roundedAt num den e = r at *
  rw [min_eq_left (by omega)] at hbits
  rw [Dyadic.ofFloat?, hbits]
  obtain hr | hr | rfl : r < 2 ^ 52 ∨ (2 ^ 52 ≤ r ∧ r < 2 ^ 53) ∨ r = 2 ^ 53 := by omega
  · -- below the precision of the format the exponent is the least one
    obtain rfl : e = -1074 := by
      by_contra h
      have := hprecise (by omega)
      omega
    exact ⟨_, ofBits?_of_fields negative (show 0 < 2047 by decide) hr, rfl, rfl⟩
  · have hfields : (e + 1074).toNat * 2 ^ 52 + r =
        ((e + 1074).toNat + 1) * 2 ^ 52 + (r - 2 ^ 52) := by omega
    rw [hfields, ofBits?_of_fields negative (by omega) (by omega), if_neg (Nat.succ_ne_zero _)]
    refine ⟨_, rfl, rfl, ?_⟩
    have he : (((e + 1074).toNat + 1 : Nat) : Int) - 1075 = e := by omega
    rw [Dyadic.modulus, he, Nat.sub_add_cancel hr.1]
  · have hfields : (e + 1074).toNat * 2 ^ 52 + 2 ^ 53 =
        ((e + 1074).toNat + 2) * 2 ^ 52 + 0 := by omega
    rw [hfields, ofBits?_of_fields negative (by omega) (by omega), if_neg (Nat.succ_ne_zero _)]
    refine ⟨_, rfl, rfl, ?_⟩
    have he : (((e + 1074).toNat + 2 : Nat) : Int) - 1075 = e + 1 := by omega
    rw [Dyadic.modulus, he, zpow_add_one₀ two_ne_zero]
    norm_num
    ring

theorem exponentOf_eq (hnum : 0 < num) (hden : 0 < den) {e : Int} (hleast : -1074 ≤ e)
    (hupper : (num : ℚ) < 2 ^ 53 * den * 2 ^ e)
    (hlower : -1074 < e → (2 ^ 52 * den * 2 ^ e : ℚ) ≤ num) : exponentOf num den = e := by
  obtain ⟨hupper', hlower'⟩ := exponentOf_bounds hnum hden
  have hleast' : -1074 ≤ exponentOf num den := le_max_right _ _
  have hden' : (0 : ℚ) < den := by exact_mod_cast hden
  -- whoever is precise at an exponent is not below a lower one
  have hle {a b : Int} (ha : (num : ℚ) < 2 ^ 53 * den * 2 ^ a)
      (hb : (2 ^ 52 * den * 2 ^ b : ℚ) ≤ num) : b ≤ a := by
    have hpow : (2 : ℚ) ^ b < 2 ^ (a + 1) := by
      rw [zpow_add_one₀ two_ne_zero]
      nlinarith
    have := (zpow_lt_zpow_iff_right₀ one_lt_two).mp hpow
    omega
  refine le_antisymm ?_ ?_
  · by_contra hlt
    exact hlt (hle hupper (hlower' (by omega)))
  · by_contra hlt
    exact hlt (hle hupper' (hlower (by omega)))

theorem scaled_eq (m : Nat) (e : Int) :
    ((m * 2 ^ e.toNat : Nat) : ℚ) = m * 2 ^ e * (2 ^ (-e).toNat : Nat) := by
  push_cast
  rw [mul_assoc, two_zpow_mul_two_pow]

theorem exponentOf_scaled {m : Nat} (hm : 0 < m) (e : Int) :
    exponentOf (m * 2 ^ e.toNat) (2 ^ (-e).toNat) = max ((m.log2 : Int) + e - 52) (-1074) := by
  obtain ⟨hlow, hhigh⟩ := log2_bounds hm
  generalize ht : max ((m.log2 : Int) + e - 52) (-1074) = t
  have hden : (0 : ℚ) < (2 ^ (-e).toNat : Nat) := by positivity
  refine exponentOf_eq (by positivity) (by positivity) (by omega) ?_ fun hmore => ?_ <;>
    rw [scaled_eq] <;> generalize 2 ^ (-e).toNat = den at hden ⊢
  · calc (m : ℚ) * 2 ^ e * den < 2 ^ ((m.log2 : Int) + 1) * 2 ^ e * den := by gcongr
      _ = 2 ^ ((m.log2 : Int) + 1 + e) * den := by rw [← zpow_add₀ two_ne_zero]
      _ ≤ 2 ^ (53 + t) * den := by
        gcongr ?_ * _
        exact zpow_le_zpow_right₀ one_le_two (by omega)
      _ = 2 ^ 53 * den * 2 ^ t := by
        rw [zpow_add₀ two_ne_zero, mul_right_comm]
        norm_cast
  · have hexact : 52 + t = m.log2 + e := by omega
    calc (2 ^ 52 * den * 2 ^ t : ℚ) = 2 ^ (52 + t) * den := by
          rw [zpow_add₀ two_ne_zero, mul_right_comm]
          norm_cast
      _ = 2 ^ (m.log2 : Int) * 2 ^ e * den := by rw [hexact, zpow_add₀ two_ne_zero]
      _ ≤ m * 2 ^ e * den := by gcongr

/-- A natural number whose binary digits fit the format: a significand of 53 bits and zeros. -/
def Holds (n : Nat) : Prop :=
  ∃ c k : Nat, c < 2 ^ 53 ∧ n = c * 2 ^ k

theorem holds_of_dvd {n k : Nat} (hdvd : 2 ^ k ∣ n) (hlt : n < 2 ^ 53 * 2 ^ k) : Holds n := by
  obtain ⟨c, rfl⟩ := hdvd
  rw [mul_comm] at hlt ⊢
  exact ⟨c, k, Nat.lt_of_mul_lt_mul_right hlt, rfl⟩

theorem holds_of_le {n : Nat} (h : n ≤ 2 ^ 53) : Holds n := by
  obtain hlt | rfl := Nat.lt_or_eq_of_le h
  · exact ⟨n, 0, hlt, (Nat.mul_one n).symm⟩
  · exact ⟨1, 53, by decide, (Nat.one_mul _).symm⟩

/-- The remainder of two numbers of the format is one: it has no digits below the lower unit of the
two, and it is less than what that unit can count. -/
theorem Holds.mod {m n : Nat} (hm : Holds m) (hn : Holds n) : Holds (m % n) := by
  obtain rfl | hpos := Nat.eq_zero_or_pos n
  · rwa [Nat.mod_zero]
  obtain ⟨a, j, ha, rfl⟩ := hm
  obtain ⟨b, k, hb, rfl⟩ := hn
  obtain hle | hle := Nat.le_total k j
  · refine holds_of_dvd (k := k) ?_ ((Nat.mod_lt _ hpos).trans (by gcongr))
    exact (Nat.dvd_mod_iff (Nat.dvd_mul_left ..)).mpr
      (Nat.dvd_mul_left_of_dvd (Nat.pow_dvd_pow 2 hle) a)
  · refine holds_of_dvd (k := j) ?_ ((Nat.mod_le _ _).trans_lt (by gcongr))
    exact (Nat.dvd_mod_iff (Nat.dvd_mul_left_of_dvd (Nat.pow_dvd_pow 2 hle) b)).mpr
      (Nat.dvd_mul_left ..)

theorem exponentOf_le_of_holds {n c k : Nat} (hn : 0 < n) (hden : 0 < den) (hc : c < 2 ^ 53)
    (h : n = c * 2 ^ k) : exponentOf (n * den) den ≤ k := by
  obtain hleast | hmore := le_or_gt (exponentOf (n * den) den) (-1074)
  · omega
  have hlower := (exponentOf_bounds (Nat.mul_pos hn hden) hden).2 hmore
  have hpow : (2 : ℚ) ^ exponentOf (n * den) den < 2 ^ ((k : Int) + 1) := by
    have hc' : (c : ℚ) < 2 ^ 53 := by exact_mod_cast hc
    have hden' : (0 : ℚ) < den := by exact_mod_cast hden
    rw [zpow_add_one₀ two_ne_zero, zpow_natCast]
    rw [h] at hlower ⊢
    push_cast at hlower
    have hp : (0 : ℚ) < 2 ^ k := by positivity
    nlinarith [mul_pos hp hden']
  have := (zpow_lt_zpow_iff_right₀ one_lt_two).mp hpow
  omega

theorem exists_ofFloat?_of_holds {n : Nat} (hn : Holds n) (hlimit : n < limit) (hden : 0 < den)
    (negative : Bool) :
    ∃ d, Dyadic.ofFloat? (ofRatio negative (n * den) den) = some d ∧ d.negative = negative ∧
      d.modulus = n := by
  obtain rfl | hpos := Nat.eq_zero_or_pos n
  · rw [Nat.zero_mul]
    exact ⟨_, ofFloat?_ofRatio_zero negative den, rfl, by simp [Dyadic.modulus]⟩
  obtain ⟨d, hd, hnegative, hmodulus⟩ := exists_ofFloat?_ofRatio (Nat.mul_pos hpos hden) hden
    ((Nat.mul_lt_mul_right hden).mpr hlimit) negative
  refine ⟨d, hd, hnegative, hmodulus.trans ?_⟩
  obtain ⟨c, k, hc, h⟩ := hn
  have hle := exponentOf_le_of_holds hpos hden hc h
  generalize exponentOf (n * den) den = e at *
  have hscaled : n * den * 2 ^ (-e).toNat = c * 2 ^ (k - e).toNat * (den * 2 ^ e.toNat) := by
    have hpow : k + (-e).toNat = (k - e).toNat + e.toNat := by omega
    calc n * den * 2 ^ (-e).toNat = c * den * 2 ^ (k + (-e).toNat) := by rw [h, pow_add]; ring
      _ = c * 2 ^ (k - e).toNat * (den * 2 ^ e.toNat) := by rw [hpow, pow_add]; ring
  rw [roundedAt, hscaled, roundHalfEven_mul _ (Nat.mul_pos hden (Nat.two_pow_pos _)), h]
  push_cast
  rw [mul_assoc, ← zpow_natCast, ← zpow_natCast, ← zpow_add₀ two_ne_zero]
  congr 2
  omega

/-- The exponent of the last binary digit of an integer that the format has room for. -/
def unitOf (n : Nat) : Nat :=
  n.log2 - 52

def nearest (i : Int) : Int :=
  i.sign * (roundHalfEven i.natAbs (2 ^ unitOf i.natAbs) * 2 ^ unitOf i.natAbs : Nat)

theorem natAbs_nearest (i : Int) :
    (nearest i).natAbs = roundHalfEven i.natAbs (2 ^ unitOf i.natAbs) * 2 ^ unitOf i.natAbs := by
  obtain rfl | hi := eq_or_ne i 0
  · decide
  · rw [nearest, Int.natAbs_mul, Int.natAbs_sign_of_ne_zero hi, Nat.one_mul, Int.natAbs_natCast]

theorem lt_unitOf (n : Nat) : n < 2 ^ 53 * 2 ^ unitOf n := by
  rw [← pow_add]
  exact Nat.lt_log2_self.trans_le (Nat.pow_le_pow_right two_pos (by rw [unitOf]; omega))

theorem holds_nearest (i : Int) : Holds (nearest i).natAbs := by
  have hround := roundHalfEven_le (Nat.two_pow_pos (unitOf i.natAbs)) (lt_unitOf i.natAbs)
  rw [natAbs_nearest]
  generalize roundHalfEven i.natAbs (2 ^ unitOf i.natAbs) = r at *
  obtain hlt | rfl := Nat.lt_or_eq_of_le hround
  · exact ⟨r, _, hlt, rfl⟩
  · exact ⟨1, 53 + unitOf i.natAbs, by decide, by rw [pow_add, Nat.one_mul]⟩

/-- The integers of the format are those that are their own floats. -/
theorem nearest_eq_self_iff (i : Int) : nearest i = i ↔ Holds i.natAbs := by
  refine ⟨fun h => h ▸ holds_nearest i, fun ⟨c, k, hc, h⟩ => ?_⟩
  have hle : unitOf i.natAbs ≤ k := by
    obtain h0 | hpos := Nat.eq_zero_or_pos i.natAbs
    · rw [h0]
      exact Nat.zero_le k
    have hlt : 2 ^ i.natAbs.log2 < 2 ^ (53 + k) := by
      calc 2 ^ i.natAbs.log2 ≤ i.natAbs := Nat.log2_self_le hpos.ne'
        _ = c * 2 ^ k := h
        _ < 2 ^ 53 * 2 ^ k := by gcongr
        _ = 2 ^ (53 + k) := (pow_add ..).symm
    have := (Nat.pow_lt_pow_iff_right one_lt_two).mp hlt
    rw [unitOf]
    omega
  have hunit : i.natAbs = c * 2 ^ (k - unitOf i.natAbs) * 2 ^ unitOf i.natAbs := by
    rw [mul_assoc, ← pow_add, Nat.sub_add_cancel hle, ← h]
  have hround : roundHalfEven i.natAbs (2 ^ unitOf i.natAbs) * 2 ^ unitOf i.natAbs = i.natAbs := by
    conv_lhs => arg 1; arg 1; rw [hunit]
    rw [roundHalfEven_mul _ (Nat.two_pow_pos _), ← hunit]
  rw [nearest, hround, Int.sign_mul_natAbs]

theorem exponentOf_one {n : Nat} (hn : 0 < n) : exponentOf n 1 = (n.log2 : Int) - 52 := by
  have hscaled := exponentOf_scaled hn 0
  simp only [neg_zero, Int.toNat_zero, pow_zero, mul_one] at hscaled
  omega

theorem roundedAt_one {n : Nat} (hn : 0 < n) :
    (roundedAt n 1 (exponentOf n 1) * 2 ^ exponentOf n 1 : ℚ) =
      (roundHalfEven n (2 ^ unitOf n) * 2 ^ unitOf n : Nat) := by
  rw [exponentOf_one hn, roundedAt, unitOf, Nat.one_mul]
  obtain hwhole | hfraction := Nat.le_total 52 n.log2
  · obtain ⟨k, hk⟩ := Nat.exists_eq_add_of_le hwhole
    have he : (n.log2 : Int) - 52 = k := by omega
    rw [he, hk, Nat.add_sub_cancel_left]
    simp
  · obtain ⟨k, hk⟩ := Nat.exists_eq_add_of_le hfraction
    have he : (n.log2 : Int) - 52 = -(k : Int) := by omega
    have hround (m : Nat) : roundHalfEven m 1 = m := by
      simpa using roundHalfEven_mul m one_pos
    rw [he, Nat.sub_eq_zero_of_le hfraction]
    simp [hround]

theorem exists_ofFloat?_ofInt? {i : Int} {x : Float} (hx : ofInt? i = some x) :
    ∃ d, Dyadic.ofFloat? x = some d ∧ d.negative = decide (i < 0) ∧
      d.modulus = (nearest i).natAbs := by
  have hlimit : i.natAbs < limit := by
    rw [← not_le, ← ofInt?_eq_none_iff, hx]
    nofun
  rw [(ofInt?_eq_some hx).1]
  obtain rfl | hi := eq_or_ne i 0
  · exact ⟨_, ofFloat?_ofRatio_zero _ _, rfl, by simp [Dyadic.modulus, nearest]⟩
  have hpos := Int.natAbs_pos.mpr hi
  obtain ⟨d, hd, hnegative, hmodulus⟩ := exists_ofFloat?_ofRatio hpos one_pos
    (by rwa [Nat.mul_one]) (decide (i < 0))
  exact ⟨d, hd, hnegative, by rw [hmodulus, natAbs_nearest, roundedAt_one hpos]⟩

end Float64

end StringLambda
