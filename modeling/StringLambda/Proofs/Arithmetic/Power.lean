import StringLambda.Proofs.Arithmetic.Rounding

namespace StringLambda

/-! Powers of integers below zero to odd exponents, as the `Math` record computes them: among floats
and by a power function that is only known to be accurate. -/

theorem abs_roundHalfEven_sub_le (num : Nat) {den : Nat} (hden : 0 < den) :
    |(roundHalfEven num den - num / den : ℚ)| ≤ 1 / 2 := by
  obtain ⟨hupper, hlower⟩ := roundHalfEven_bounds num hden
  have hden' : (0 : ℚ) < den := by exact_mod_cast hden
  have hupper' : (2 * (roundHalfEven num den * den) : ℚ) ≤ 2 * num + den := by exact_mod_cast hupper
  have hlower' : (2 * num : ℚ) ≤ 2 * (roundHalfEven num den * den) + den := by exact_mod_cast hlower
  rw [← mul_div_cancel_right₀ (roundHalfEven num den : ℚ) hden'.ne', ← sub_div, abs_div,
    abs_of_pos hden', div_le_iff₀ hden', abs_le]
  constructor <;> linarith

namespace Float64

theorem abs_roundedAt_sub_le (num : Nat) {den : Nat} (hden : 0 < den) (e : Int) :
    |(roundedAt num den e * 2 ^ e - num / den : ℚ)| ≤ 2 ^ e / 2 := by
  have hden' : (0 : ℚ) < den := by exact_mod_cast hden
  have hscaled : (num / den : ℚ) =
      (num * 2 ^ (-e).toNat : Nat) / (den * 2 ^ e.toNat : Nat) * 2 ^ e := by
    push_cast
    rw [div_mul_eq_mul_div, div_eq_div_iff hden'.ne' (by positivity), ← two_zpow_mul_two_pow e]
    ring
  have hround := abs_roundHalfEven_sub_le (num * 2 ^ (-e).toNat)
    (show 0 < den * 2 ^ e.toNat by positivity)
  rw [hscaled, ← sub_mul, abs_mul, abs_of_pos (by positivity : (0 : ℚ) < 2 ^ e), roundedAt]
  calc _ ≤ (1 / 2 : ℚ) * 2 ^ e := by gcongr
    _ = 2 ^ e / 2 := by ring

theorem abs_rounded_sub_le {num den : Nat} (hden : 0 < den) (hle : den ≤ num) :
    |(roundedAt num den (exponentOf num den) * 2 ^ exponentOf num den - num / den : ℚ)| ≤
      num / den * 2 ^ (-52 : Int) := by
  have hden' : (0 : ℚ) < den := by exact_mod_cast hden
  have hle' : (den : ℚ) ≤ num := by exact_mod_cast hle
  obtain ⟨hupper, hlower⟩ := exponentOf_bounds (hden.trans_le hle) hden
  have hmore : -1074 < exponentOf num den := by
    by_contra h
    have hunit : (2 : ℚ) ^ exponentOf num den ≤ 2 ^ (-53 : Int) :=
      zpow_le_zpow_right₀ one_le_two (by omega)
    rw [zpow_neg] at hunit
    nlinarith
  have hlast : (2 : ℚ) ^ exponentOf num den ≤ num / den * 2 ^ (-52 : Int) := by
    rw [zpow_neg, ← div_eq_mul_inv, le_div_iff₀ (by positivity), le_div_iff₀ hden']
    refine le_of_eq_of_le ?_ (hlower hmore)
    rw [zpow_ofNat]
    ring
  have hpos : (0 : ℚ) < 2 ^ exponentOf num den := by positivity
  linarith [abs_roundedAt_sub_le num hden (exponentOf num den)]

end Float64

theorem lt_zero_iff_of_near {v p : ℚ} (hp : p ≠ 0) (hnear : |v - p| ≤ |p| * 2 ^ (-52 : Int)) :
    v < 0 ↔ p < 0 := by
  have hlt : |v - p| < |p| :=
    hnear.trans_lt (mul_lt_of_lt_one_right (abs_pos.mpr hp) (by norm_num))
  obtain ⟨hlow, hhigh⟩ := abs_lt.mp hlt
  obtain hneg | hpos := lt_or_gt_of_ne hp
  · rw [abs_of_neg hneg] at hhigh
    exact iff_of_true (by linarith) hneg
  · rw [abs_of_pos hpos] at hlow
    exact iff_of_false (by linarith) hpos.not_gt

/-- A whole power of a finite number that is not between -1 and 1. -/
structure WholePower (x y : Float) (base : ℚ) (n : Nat) : Prop where
  base_eq : ∃ d, Dyadic.ofFloat? x = some d ∧ d.value = base
  exponent_eq : ∃ e, Dyadic.ofFloat? y = some e ∧ e.value = n
  one_le_base : 1 ≤ |base|

/-- A power function of floats is right but for the last digit of the format, and where a power is
beyond the format it gives the infinity of its sign. -/
structure IsPower (power : Float → Float → Float) : Prop where
  ordered {x y : Float} {base : ℚ} {n : Nat} : WholePower x y base n → (power x y).isNaN = false
  near {x y : Float} {base : ℚ} {n : Nat} {f : Dyadic} : WholePower x y base n →
    Dyadic.ofFloat? (power x y) = some f → |f.value - base ^ n| ≤ |base ^ n| * 2 ^ (-52 : Int)
  beyond {x y : Float} {base : ℚ} {n : Nat} : WholePower x y base n →
    (power x y).isInf = true → Float64.limit ≤ |base ^ n| * (1 + 2 ^ (-52 : Int)) ∧
      Float64.isNegative (power x y) = decide (base ^ n < 0)

def roundedPower (x y : Float) : Float :=
  match Dyadic.ofFloat? x, Dyadic.ofFloat? y with
  | some d, some e =>
    let n := e.truncate.toNat
    Float64.ofRatio (d.negative && n % 2 == 1) (d.magnitude.1 ^ n) (d.magnitude.2 ^ n)
  | _, _ => Float64.nan

namespace Float64

theorem isNegative_ofRatio (negative : Bool) (num den : Nat) :
    isNegative (ofRatio negative num den) = negative := by
  have hle := bitsOfRatio_le num den
  rw [isNegative, toNat_toBits_ofRatio, Nat.pow_eq]
  cases negative
  · rw [if_neg (by decide), beq_eq_false_iff_ne]
    omega
  · rw [if_pos rfl, beq_iff_eq]
    omega

end Float64

namespace Dyadic

theorem modulus_nonneg (d : Dyadic) : 0 ≤ d.modulus := by
  rw [modulus]
  positivity

theorem abs_value (d : Dyadic) : |d.value| = d.modulus := by
  rw [value]
  split <;> simp [abs_of_nonneg d.modulus_nonneg]

theorem negative_iff {d : Dyadic} (h : d.value ≠ 0) : d.negative = true ↔ d.value < 0 := by
  have hpos : 0 < d.modulus := by rwa [← abs_value, abs_pos]
  rw [value]
  split
  next hnegative => exact iff_of_true hnegative (by linarith)
  next hnegative => exact iff_of_false hnegative hpos.not_gt

theorem sign_of_pow {d : Dyadic} (h : d.value ≠ 0) (n : Nat) :
    (d.negative && n % 2 == 1) = decide (d.value ^ n < 0) := by
  rw [Bool.eq_iff_iff, decide_eq_true_iff, Bool.and_eq_true, negative_iff h, beq_iff_eq]
  obtain heven | hodd := Nat.even_or_odd n
  · simp [heven.pow_nonneg, Nat.even_iff.mp heven]
  · simp [hodd.pow_neg_iff, Nat.odd_iff.mp hodd]

theorem truncate_of_value {d : Dyadic} {n : Nat} (h : d.value = n) : d.truncate = n := by
  have hmodulus : d.modulus = n := by rw [← abs_value, h, Nat.abs_cast]
  rw [truncate_of_modulus hmodulus]
  rw [value, hmodulus] at h
  split at h
  next hnegative =>
    have hzero : (n : ℚ) = 0 := by linarith
    rw [if_pos hnegative, Nat.cast_eq_zero.mp hzero]
    rfl
  next hnegative => exact if_neg hnegative

theorem abs_value_sub {f : Dyadic} {p : ℚ} (hnegative : f.negative = decide (p < 0)) :
    |f.value - p| = |f.modulus - (|p|)| := by
  rw [value, hnegative]
  by_cases hp : p < 0
  · rw [if_pos (decide_eq_true hp), abs_of_neg hp, ← abs_neg]
    congr 1
    ring
  · rw [if_neg (by simpa using hp), abs_of_nonneg (not_lt.mp hp)]

end Dyadic

section

variable {x y : Float} {base : ℚ} {n : Nat} (h : WholePower x y base n)
include h

theorem roundedPower_eq : ∃ num den : Nat, 0 < den ∧ den ≤ num ∧ |base ^ n| = num / den ∧
    roundedPower x y = Float64.ofRatio (decide (base ^ n < 0)) num den := by
  obtain ⟨⟨d, hd, rfl⟩, ⟨e, he, hn⟩, hle⟩ := h
  have hden : 0 < d.magnitude.2 := Nat.two_pow_pos _
  have hne : d.value ≠ 0 := abs_pos.mp (one_pos.trans_le hle)
  have habs : |d.value| = d.magnitude.1 / d.magnitude.2 := by
    rw [d.abs_value, d.magnitude_fst, mul_div_cancel_right₀]
    exact_mod_cast hden.ne'
  refine ⟨d.magnitude.1 ^ n, d.magnitude.2 ^ n, Nat.pow_pos hden, ?_, ?_, ?_⟩
  · refine Nat.pow_le_pow_left ?_ n
    rw [habs, le_div_iff₀ (by exact_mod_cast hden), one_mul] at hle
    exact_mod_cast hle
  · rw [abs_pow, habs, div_pow]
    push_cast
    rfl
  · rw [roundedPower, hd, he]
    simp only [Dyadic.truncate_of_value hn, Int.toNat_natCast, Dyadic.sign_of_pow hne n]

end

theorem isPower_roundedPower : IsPower roundedPower where
  ordered h := by
    obtain ⟨num, den, -, -, -, hpower⟩ := roundedPower_eq h
    rw [hpower, Float64.isNaN_ofRatio]
  near h hf := by
    obtain ⟨num, den, hden, hle, habs, hpower⟩ := roundedPower_eq h
    rw [hpower] at hf
    have hlimit : num < Float64.limit * den := by
      rw [← not_le, ← Float64.ofFloat?_ofRatio_eq_none_iff hden, hf]
      nofun
    obtain ⟨_, hf', hnegative, hmodulus⟩ :=
      Float64.exists_ofFloat?_ofRatio (hden.trans_le hle) hden hlimit _
    cases hf.symm.trans hf'
    rw [Dyadic.abs_value_sub hnegative, hmodulus, habs]
    exact Float64.abs_rounded_sub_le hden hle
  beyond h hinf := by
    obtain ⟨num, den, hden, hle, habs, hpower⟩ := roundedPower_eq h
    rw [hpower] at hinf ⊢
    refine ⟨?_, Float64.isNegative_ofRatio ..⟩
    rw [Float64.isInf_ofRatio_iff _ _ hden] at hinf
    have hlimit : (Float64.limit : ℚ) ≤ num / den := by
      rw [le_div_iff₀ (by exact_mod_cast hden)]
      exact_mod_cast hinf
    rw [habs]
    exact hlimit.trans (le_mul_of_one_le_right (by positivity) (by norm_num))

namespace Float64

theorem isFinite_of_ofFloat? {x : Float} {d : Dyadic} (hd : Dyadic.ofFloat? x = some d)
    (hpos : 0 < d.mantissa) : x.isFinite = true := by
  change (Float.Model.UnpackedFloat.unpack .binary64 x.toBits.toBitVec).isFinite = true
  rw [unpack_of_ofBits? hd hpos]
  rfl

theorem beq_zero_of_ofFloat? {x : Float} {d : Dyadic} (hd : Dyadic.ofFloat? x = some d)
    (hpos : 0 < d.mantissa) : (x == 0) = false := by
  change (Float.Model.UnpackedFloat.unpack .binary64 x.toBits.toBitVec).beq
    (.zero .positive) = false
  rw [unpack_of_ofBits? hd hpos, Dyadic.sign]
  split <;> rfl

theorem nearest_odd_iff {i : Int} (hodd : i % 2 = 1) : nearest i % 2 = 1 ↔ i.natAbs < 2 ^ 53 := by
  obtain hlt | hle := Nat.lt_or_ge i.natAbs (2 ^ 53)
  · rw [(nearest_eq_self_iff i).mpr (holds_of_le hlt.le)]
    exact iff_of_true hodd hlt
  · have hunit : 0 < unitOf i.natAbs := by
      have : 53 ≤ i.natAbs.log2 := (Nat.le_log2 (by omega)).mpr hle
      rw [unitOf]
      omega
    have heven : 2 ∣ (nearest i).natAbs := by
      rw [natAbs_nearest]
      exact (dvd_pow_self 2 hunit.ne').trans (Nat.dvd_mul_left ..)
    exact iff_of_false (by omega) hle.not_gt

theorem nearest_pos {i : Int} (hi : 0 < i) : 0 < nearest i := by
  rw [← Int.sign_eq_one_iff_pos, sign_nearest, Int.sign_eq_one_iff_pos]
  exact hi

end Float64

namespace Number

open Float64

theorem isNegative_float_iff {x : Float} {d : Dyadic} (hd : Dyadic.ofFloat? x = some d) :
    (Number.float x).isNegative = true ↔ d.value < 0 := by
  have hden : (0 : ℚ) < d.magnitude.2 := by exact_mod_cast (Nat.two_pow_pos _)
  rw [← mul_lt_mul_iff_left₀ hden, zero_mul, d.value_mul, Int.cast_lt_zero, ← Int.compare_eq_lt]
  simp [isNegative, less, compare?, compareFloatInt?, hd, Dyadic.compareInt]

theorem exists_toFloat_int {i : Int} (hi : i ≠ 0) (hlimit : i.natAbs < limit) :
    ∃ x d, toFloat (.int i) = .ok x ∧ Dyadic.ofFloat? x = some d ∧ 0 < d.mantissa ∧
      d.value = nearest i := by
  obtain ⟨x, d, hx, hd, hnegative, hmodulus⟩ := toFloat_nearest hlimit
  exact ⟨x, d, hx, hd, Dyadic.mantissa_pos (nearest_ne_zero hi) hmodulus,
    Dyadic.value_of_modulus hnegative hmodulus⟩

theorem realPower_of_finite {power : Float → Float → Float} {a b : Number} {x y : Float}
    {d e : Dyadic} (hx : a.toFloat = .ok x) (hy : b.toFloat = .ok y)
    (hd : Dyadic.ofFloat? x = some d) (he : Dyadic.ofFloat? y = some e) (hdigits : 0 < d.mantissa)
    (hdigits' : 0 < e.mantissa) (hordered : (power x y).isNaN = false) :
    realPower power a b = if (power x y).isInf then .error .overflow else .ok (power x y) := by
  rw [realPower, hx, hy]
  change (if x.isFinite && y.isFinite then
    if (power x y).isNaN then .error .wrongValue
    else if (power x y).isInf then .error (if x == 0 then .wrongValue else .overflow)
    else .ok (power x y)
  else .ok (power x y) : Except Defect Float) = _
  rw [isFinite_of_ofFloat? hd hdigits, isFinite_of_ofFloat? he hdigits', hordered,
    beq_zero_of_ofFloat? hd hdigits]
  rfl

/-- How a power of an integer below zero to an odd exponent comes out. The base and the exponent
become floats, and an exponent with more digits than the format is even then. Where one of them or
the power itself is too large, the result is the infinity above zero, also where the power function
gives the one below. -/
inductive OddPower (power : Float → Float → Float) (a b : Int) : Float → Prop
  | beyond : limit ≤ a.natAbs ∨ limit ≤ b.natAbs → OddPower power a b infinity
  | overflow {x y : Float} : toFloat (.int a) = .ok x → toFloat (.int b) = .ok y →
      (power x y).isInf = true →
      limit ≤ |(nearest a : ℚ) ^ (nearest b).toNat| * (1 + 2 ^ (-52 : Int)) →
      (Float64.isNegative (power x y) = true ↔ b < 2 ^ 53) → OddPower power a b infinity
  | near {r : Float} {f : Dyadic} : a.natAbs < limit → b.natAbs < limit →
      Dyadic.ofFloat? r = some f →
      |f.value - (nearest a : ℚ) ^ (nearest b).toNat| ≤
        |(nearest a : ℚ) ^ (nearest b).toNat| * 2 ^ (-52 : Int) →
      ((Number.float r).isNegative = true ↔ b < 2 ^ 53) → OddPower power a b r

section

variable {power : Float → Float → Float} {a b : Int} (ha : a < 0) (hb : 0 < b) (hodd : b % 2 = 1)
include ha

theorem mathPower_eq : mathPower power (.int a) (.int b) =
    match realPower power (.int a) (.int b) with
    | .ok x => .float x
    | .error .overflow => .float Float64.infinity
    | .error _ => .float Float64.nan := by
  have hzero : (Number.int a).isZero = false := by
    rw [← Bool.not_eq_true, isZero_int]
    omega
  rw [mathPower, hzero]
  rfl

theorem mathPower_of_beyond (h : limit ≤ a.natAbs ∨ limit ≤ b.natAbs) :
    mathPower power (.int a) (.int b) = .float infinity := by
  rw [mathPower_eq ha, realPower]
  obtain ha' | ha' := le_or_gt limit a.natAbs
  · rw [toFloat_int_of_le ha']
    rfl
  · obtain ⟨x, _, hx, _⟩ := toFloat_int_of_lt ha'
    rw [hx, toFloat_int_of_le (h.resolve_left (not_le.mpr ha'))]
    rfl

include hb hodd

theorem power_lt_zero_iff : (nearest a : ℚ) ^ (nearest b).toNat < 0 ↔ b < 2 ^ 53 := by
  have ha' : (nearest a : ℚ) < 0 := by exact_mod_cast (nearest_lt_zero_iff a).mpr ha
  have hparity := nearest_odd_iff hodd
  have hpos := nearest_pos hb
  obtain h | h := Nat.even_or_odd (nearest b).toNat
  · have := Nat.even_iff.mp h
    exact iff_of_false (not_lt.mpr (h.pow_nonneg _)) (by omega)
  · have := Nat.odd_iff.mp h
    exact iff_of_true (h.pow_neg_iff.mpr ha') (by omega)

theorem mathPower_of_within (hpower : IsPower power) (ha' : a.natAbs < limit)
    (hb' : b.natAbs < limit) : ∃ r, mathPower power (.int a) (.int b) = .float r ∧
      OddPower power a b r := by
  obtain ⟨x, d, hx, hd, hdigits, hbase⟩ := exists_toFloat_int ha.ne ha'
  obtain ⟨y, e, hy, he, hdigits', hexponent⟩ := exists_toFloat_int hb.ne' hb'
  have hwhole : WholePower x y (nearest a) (nearest b).toNat := by
    refine ⟨⟨d, hd, hbase⟩, ⟨e, he, ?_⟩, ?_⟩
    · rw [hexponent, ← Int.cast_natCast, Int.toNat_of_nonneg (nearest_pos hb).le]
    · exact_mod_cast Int.one_le_abs (nearest_ne_zero ha.ne)
  have hsign := power_lt_zero_iff ha hb hodd
  rw [mathPower_eq ha,
    realPower_of_finite hx hy hd he hdigits hdigits' (hpower.ordered hwhole)]
  cases hinf : (power x y).isInf with
  | true =>
      obtain ⟨hlimit, hnegative⟩ := hpower.beyond hwhole hinf
      exact ⟨_, rfl, .overflow hx hy hinf hlimit (by rw [hnegative, decide_eq_true_iff, hsign])⟩
  | false =>
      obtain ⟨f, hf⟩ : ∃ f, Dyadic.ofFloat? (power x y) = some f := by
        refine Option.ne_none_iff_exists'.mp (mt (ofFloat?_eq_none_iff _).mp ?_)
        rw [hinf, hpower.ordered hwhole]
        decide
      have hnear := hpower.near hwhole hf
      refine ⟨_, rfl, .near ha' hb' hf hnear ?_⟩
      have hne : (nearest a : ℚ) ≠ 0 := by exact_mod_cast nearest_ne_zero ha.ne
      rw [isNegative_float_iff hf, ← hsign, lt_zero_iff_of_near (pow_ne_zero _ hne) hnear]

end

end Number

open Float64 Number

/-- A call for a power of an integer below zero to an odd exponent always has a result, a float that
is no NaN. Below zero it is as long as the base, the exponent and the power are within the format
and the exponent has no more digits than the format. -/
theorem power_of_negative {power : Float → Float → Float} (hpower : IsPower power) {a b : Int}
    (ha : a < 0) (hb : 0 < b) (hodd : b % 2 = 1) :
    (∀ (depth : Nat) (context : Context) (m : Machine),
      call (depth + 1) context (.builtin (.global .power)) [.ofInt a, .ofInt b] m =
        .ok (.number (mathPower Float.pow (.int a) (.int b))) m) ∧
    ∃ r, mathPower power (.int a) (.int b) = .float r ∧ OddPower power a b r := by
  refine ⟨fun _ _ _ => rfl, ?_⟩
  by_cases h : limit ≤ a.natAbs ∨ limit ≤ b.natAbs
  · exact ⟨_, mathPower_of_beyond ha h, .beyond h⟩
  · obtain ⟨ha', hb'⟩ := not_or.mp h
    exact mathPower_of_within ha hb hodd hpower (not_le.mp ha') (not_le.mp hb')

theorem power_of_negative_cube : IsPower roundedPower ∧ (-3 : Int) < 0 ∧ (0 : Int) < 3 ∧
    (3 : Int) % 2 = 1 ∧ ∃ r, mathPower roundedPower (.int (-3)) (.int 3) = .float r ∧
      (Number.float r).isNegative = true := by
  refine ⟨isPower_roundedPower, by decide, by decide, by decide, ?_⟩
  obtain ⟨-, r, hr, hpower⟩ := power_of_negative isPower_roundedPower (a := -3) (b := 3)
    (by decide) (by decide) (by decide)
  refine ⟨r, hr, ?_⟩
  cases hpower with
  | beyond h => exact absurd h (by decide +kernel)
  | overflow _ _ _ h =>
      have hbase : nearest (-3) = -3 := by decide
      have hexponent : nearest 3 = 3 := by decide
      have hlimit : ((54 : Nat) : ℚ) < limit := Nat.cast_lt.mpr (by decide +kernel)
      rw [hbase, hexponent, show (3 : Int).toNat = 3 from rfl] at h
      generalize (limit : ℚ) = bound at *
      norm_num at h hlimit
      linarith
  | near _ _ _ _ h => exact h.mpr (by decide)

/-- The base that is just beyond the format gives the infinity above zero. -/
theorem not_forall_power_of_negative :
    ¬ ∀ (a b : Int) (depth : Nat) (context : Context) (m : Machine), a < 0 → 0 < b → b % 2 = 1 →
      ∃ r, call (depth + 1) context (.builtin (.global .power)) [.ofInt a, .ofInt b] m =
        .ok (.number (.float r)) m ∧ (Number.float r).isNegative = true := fun h => by
  have hbase : -(limit : Int) < 0 := by
    have : 0 < limit := by unfold limit; positivity
    omega
  have hbeyond : limit ≤ (-(limit : Int)).natAbs := by rw [Int.natAbs_neg, Int.natAbs_natCast]
  obtain ⟨r, hr, hnegative⟩ := h (-limit) 1 0 .plain .initial hbase one_pos rfl
  have hcall : call 1 .plain (.builtin (.global .power)) [.ofInt (-limit), .ofInt 1] .initial =
      .ok (.number (mathPower Float.pow (.int (-limit)) (.int 1))) .initial := rfl
  rw [hcall, mathPower_of_beyond hbase (.inl hbeyond)] at hr
  cases hr
  exact absurd hnegative (by decide)

end StringLambda
