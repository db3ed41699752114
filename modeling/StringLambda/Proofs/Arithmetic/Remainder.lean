import StringLambda.Proofs.Arithmetic
import StringLambda.Proofs.Arithmetic.Exactness

namespace StringLambda

/-! The remainder of two integers. It is computed among floats and is exact there, so it is the
remainder of the two floats nearest to the operands. -/

/-- What is left of `a` after a truncated division by `b`: it has the sign of `a`. -/
structure IsRemainder (a b r : Int) : Prop where
  exists_quotient : ∃ q, a = b * q + r
  lt_divisor : |r| < |b|
  sign_eq : r = 0 ∨ r.sign = a.sign

theorem tmod_eq_sign_mul (a b : Int) : a.tmod b = a.sign * (a.natAbs % b.natAbs : Nat) := by
  have hnat (m : Nat) : (m : Int).tmod b = (m % b.natAbs : Nat) := by
    obtain ⟨n, rfl | rfl⟩ := Int.eq_nat_or_neg b
    · exact (Int.ofNat_tmod ..).symm
    · rw [Int.tmod_neg, Int.natAbs_neg]
      exact (Int.ofNat_tmod ..).symm
  obtain ha | rfl | ha := Int.lt_trichotomy a 0
  · rw [Int.sign_eq_neg_one_of_neg ha, ← hnat, Int.ofNat_natAbs_of_nonpos ha.le, Int.neg_tmod,
      neg_one_mul, neg_neg]
  · simp
  · rw [Int.sign_eq_one_of_pos ha, ← hnat, Int.natAbs_of_nonneg ha.le, one_mul]

theorem isRemainder_tmod (a : Int) {b : Int} (hb : b ≠ 0) : IsRemainder a b (a.tmod b) where
  exists_quotient := ⟨a.tdiv b, (Int.mul_tdiv_add_tmod a b).symm⟩
  lt_divisor := by
    rw [Int.abs_eq_natAbs, Int.abs_eq_natAbs, Int.natAbs_tmod]
    exact_mod_cast Nat.mod_lt _ (Int.natAbs_pos.mpr hb)
  sign_eq := by
    rw [tmod_eq_sign_mul]
    obtain h | h := Nat.eq_zero_or_pos (a.natAbs % b.natAbs)
    · exact .inl (by rw [h, Nat.cast_zero, mul_zero])
    · exact .inr (by rw [Int.sign_mul, Int.sign_sign, Int.sign_natCast_of_ne_zero h.ne', mul_one])

namespace Float64

theorem sign_nearest (i : Int) : (nearest i).sign = i.sign := by
  obtain rfl | hi := eq_or_ne i 0
  · decide
  have hunit : 2 ^ unitOf i.natAbs ≤ i.natAbs :=
    (Nat.pow_le_pow_right two_pos (Nat.sub_le ..)).trans
      (Nat.log2_self_le (Int.natAbs_ne_zero.mpr hi))
  have hround : roundHalfEven i.natAbs (2 ^ unitOf i.natAbs) ≠ 0 :=
    ((Nat.div_pos hunit (Nat.two_pow_pos _)).trans_le (div_le_roundHalfEven ..)).ne'
  rw [nearest, Int.sign_mul, Int.sign_sign,
    Int.sign_natCast_of_ne_zero (Nat.mul_ne_zero hround (Nat.two_pow_pos _).ne'), mul_one]

theorem nearest_ne_zero {i : Int} (hi : i ≠ 0) : nearest i ≠ 0 := fun h =>
  hi (Int.sign_eq_zero_iff_zero.mp (by rw [← sign_nearest, h, Int.sign_zero]))

end Float64

namespace Number

open Float64

theorem toFloat_int_of_lt {i : Int} (hi : i.natAbs < limit) :
    ∃ x d, toFloat (.int i) = .ok x ∧ Dyadic.ofFloat? x = some d ∧
      d.negative = decide (i < 0) ∧ d.modulus = (nearest i).natAbs := by
  obtain ⟨x, hx⟩ := Option.ne_none_iff_exists'.mp (mt (ofInt?_eq_none_iff i).mp (not_le.mpr hi))
  obtain ⟨d, hd⟩ := exists_ofFloat?_ofInt? hx
  exact ⟨x, d, by rw [toFloat, hx], hd⟩

theorem toFloat_int_of_le {i : Int} (hi : limit ≤ i.natAbs) :
    toFloat (.int i) = .error .overflow := by
  rw [toFloat, (ofInt?_eq_none_iff i).mpr hi]

theorem truncateFloat_floatRemainder {x y : Float} {d e : Dyadic} {m n : Nat}
    (hd : Dyadic.ofFloat? x = some d) (he : Dyadic.ofFloat? y = some e) (hm : d.modulus = m)
    (hn : e.modulus = n) (hn0 : n ≠ 0) (hmod : Holds (m % n)) :
    ∃ r, floatRemainder x y = .ok r ∧
      truncateFloat r = .ok (if d.negative then -(m % n : Nat) else (m % n : Nat)) := by
  have hden (f : Dyadic) : 0 < f.magnitude.2 := Nat.two_pow_pos _
  have hpos : 0 < d.magnitude.2 * e.magnitude.2 := Nat.mul_pos (hden d) (hden e)
  have hnum : d.magnitude.1 * e.magnitude.2 % (e.magnitude.1 * d.magnitude.2) =
      m % n * (d.magnitude.2 * e.magnitude.2) := by
    rw [Dyadic.magnitude_fst_of_modulus hm, Dyadic.magnitude_fst_of_modulus hn,
      ← Nat.mul_mod_mul_right]
    congr 1 <;> ring
  have hne : e.magnitude.1 ≠ 0 := by
    rw [Dyadic.magnitude_fst_of_modulus hn]
    exact Nat.mul_ne_zero hn0 (hden e).ne'
  have hlimit : m % n < limit := by
    have := magnitude_lt_limit hd
    rw [Dyadic.magnitude_fst_of_modulus hm] at this
    exact (Nat.mod_le m n).trans_lt (Nat.lt_of_mul_lt_mul_right this)
  obtain ⟨f, hf, hnegative, hmodulus⟩ := exists_ofFloat?_of_holds hmod hlimit hpos d.negative
  refine ⟨_, floatRemainder_eq_ofRatio hd he hne, ?_⟩
  rw [hnum, truncateFloat, hf, ← hnegative, ← Dyadic.truncate_of_modulus hmodulus]

theorem mod_int {a b : Int} (ha : a.natAbs < limit) (hb : b.natAbs < limit) (hb0 : b ≠ 0) :
    mod (.int a) (.int b) = .ok (.int ((nearest a).tmod (nearest b))) := by
  obtain ⟨x, d, hx, hd, hnegative, hm⟩ := toFloat_int_of_lt ha
  obtain ⟨y, e, hy, he, -, hn⟩ := toFloat_int_of_lt hb
  obtain ⟨r, hr, htruncate⟩ := truncateFloat_floatRemainder hd he hm hn
    (Int.natAbs_ne_zero.mpr (nearest_ne_zero hb0)) ((holds_nearest a).mod (holds_nearest b))
  have hsign (k : Nat) (hk : a = 0 → k = 0) :
      (if d.negative then -(k : Int) else k) = (nearest a).sign * k := by
    rw [hnegative, sign_nearest]
    obtain ha | rfl | ha := Int.lt_trichotomy a 0
    · simp [ha, Int.sign_eq_neg_one_of_neg ha]
    · simp [hk]
    · simp [ha.le, Int.sign_eq_one_of_pos ha]
  rw [tmod_eq_sign_mul, ← hsign _ (by rintro rfl; rfl)]
  rw [mod, hx, hy]
  change (do let r ← floatRemainder x y
             return Number.int (← truncateFloat r) : Except Defect Number) = _
  rw [hr]
  change (do return Number.int (← truncateFloat r) : Except Defect Number) = _
  rw [htruncate]
  rfl

theorem mod_int_of_le {a b : Int} (h : limit ≤ a.natAbs ∨ limit ≤ b.natAbs) :
    mod (.int a) (.int b) = .error .overflow := by
  obtain ha | ha := le_or_gt limit a.natAbs
  · rw [mod, toFloat_int_of_le ha]
    rfl
  · obtain ⟨x, _, hx, _⟩ := toFloat_int_of_lt ha
    rw [mod, hx, toFloat_int_of_le (h.resolve_left (not_le.mpr ha))]
    rfl

end Number

namespace Value

open Float64

variable {a b : Int}

theorem binary_remainder_eq (hb : b ≠ 0) (s : Arena) :
    binary "%" (.ofInt a) (.ofInt b) s =
      (do return .number (← Act.ofDefect (Number.mod (.int a) (.int b))) : Act Value) s := by
  have hbinary : binary "%" (.ofInt a) (.ofInt b) =
      applyOperator .remainder (.ofInt a) (.ofInt b) := by
    rw [binary, show Operator.ofText? "%" = some .remainder from Operator.ofText?_text .remainder]
  rw [hbinary, applyOperator_of_operands (by simp) (by simp)]
  change arithmetic .remainder (.int a) (.int b) s = _
  rw [arithmetic, if_neg (mt Number.isZero_int.mp hb)]

/-- The remainder of two integers by a divisor other than zero is an integer, unless one of the two
is beyond the format: the remainder of the floats nearest to them, hence their own if each of them
is a float. -/
theorem binary_remainder (a : Int) (hb : b ≠ 0) (s : Arena) :
    (limit ≤ a.natAbs ∨ limit ≤ b.natAbs) ∧
        binary "%" (.ofInt a) (.ofInt b) s = .error (.fault (.builtin .overflow)) s ∨
      (a.natAbs < limit ∧ b.natAbs < limit) ∧
        ∃ r, binary "%" (.ofInt a) (.ofInt b) s = .ok (.ofInt r) s ∧
          IsRemainder (nearest a) (nearest b) r ∧
          (Holds a.natAbs → Holds b.natAbs → IsRemainder a b r) := by
  rw [binary_remainder_eq hb]
  by_cases h : limit ≤ a.natAbs ∨ limit ≤ b.natAbs
  · rw [Number.mod_int_of_le h]
    exact .inl ⟨h, rfl⟩
  · obtain ⟨ha', hb'⟩ := not_or.mp h
    rw [Number.mod_int (not_le.mp ha') (not_le.mp hb') hb]
    have hr := isRemainder_tmod (nearest a) (nearest_ne_zero hb)
    refine .inr ⟨⟨not_le.mp ha', not_le.mp hb'⟩, _, rfl, hr, fun ha hb => ?_⟩
    simpa only [(nearest_eq_self_iff a).mpr ha, (nearest_eq_self_iff b).mpr hb] using hr

theorem binary_remainder_of_digits :
    (-7 : Int) ≠ 0 ∧ ∃ r, binary "%" (.ofInt (2 ^ 60 + 2 ^ 8)) (.ofInt (-7)) ⟨.empty, 0⟩ =
      .ok (.ofInt r) ⟨.empty, 0⟩ ∧ IsRemainder (2 ^ 60 + 2 ^ 8) (-7) r := by
  have hb : (-7 : Int) ≠ 0 := by decide
  refine ⟨hb, ?_⟩
  obtain ⟨hbeyond, -⟩ | ⟨-, r, hr, -, hexact⟩ := binary_remainder (2 ^ 60 + 2 ^ 8) hb ⟨.empty, 0⟩
  · exact absurd hbeyond (by decide +kernel)
  · exact ⟨r, hr, hexact ⟨2 ^ 52 + 1, 8, by decide, by decide⟩ (holds_of_le (by decide))⟩

/-- An odd integer of 54 binary digits is no float, and its remainder by two is zero. -/
theorem not_forall_binary_remainder :
    ¬ ∀ (a b : Int) (s : Arena), b ≠ 0 →
      ∃ r, binary "%" (.ofInt a) (.ofInt b) s = .ok (.ofInt r) s ∧ IsRemainder a b r := fun h => by
  obtain ⟨r, hr, ⟨q, hq⟩, -⟩ := h (2 ^ 53 + 1) 2 ⟨.empty, 0⟩ (by decide)
  have hnearest : (nearest (2 ^ 53 + 1)).tmod (nearest 2) = 0 := by decide
  rw [binary_remainder_eq (by decide), Number.mod_int (by decide +kernel) (by decide +kernel)
    (by decide), hnearest] at hr
  cases hr
  omega

end Value

end StringLambda
