import StringLambda.Operator
import StringLambda.Proofs.Arithmetic.Format

namespace StringLambda

/-! The numbers at which an operator leaves the language: it fails as an operation on floats does,
or it has a complex result. Everywhere else it gives a number. -/

def Operator.refuses : Operator → Number → Bool
  | .divide, b | .remainder, b => b.isZero
  | _, _ => false

def Operator.converts : Operator → Number → Number → Bool
  | .remainder, _, _ => true
  | .power, .int _, .int j => decide (j < 0)
  | _, .int _, .int _ => false
  | _, _, _ => true

namespace Number

def IsBeyond : Number → Prop
  | .int i => Float64.limit ≤ i.natAbs
  | .float _ => False

/-- A finite base with a finite exponent other than zero. -/
structure IsOrdinary (x y : Float) : Prop where
  exponent_ne : (y == 0) = false
  base_ordered : x.isNaN = false
  exponent_ordered : y.isNaN = false
  exponent_bounded : y.isInf = false
  base_bounded : x.isInf = false

/-- The floats that have no power among the floats. -/
inductive LacksPower (x y : Float) : Prop
  | inverseOfZero : IsOrdinary x y → (x == 0) = true → y < 0 → LacksPower x y
  | rootOfNegative : IsOrdinary x y → (x == 0) = false → x < 0 → isWhole y = false →
      LacksPower x y
  /-- The power is beyond the format. -/
  | overflow : IsOrdinary x y → (x == 0) = false → (x < 0 → isWhole y = true) →
      (Float.pow x y).isInf = true → LacksPower x y

/-- The numbers at which an operator leaves the language. -/
inductive Leaves : Operator → Number → Number → Prop
  | beyond {op : Operator} {a b : Number} : op.refuses b = false → op.converts a b = true →
      a.IsBeyond ∨ b.IsBeyond → Leaves op a b
  /-- The quotient of two integers is beyond the format. -/
  | quotient {i j : Int} : j ≠ 0 → Float64.limit * j.natAbs ≤ i.natAbs →
      Leaves .divide (.int i) (.int j)
  | infiniteDividend {x : Float} {b : Number} : b.isZero = false → x.isInf = true →
      b.isNaN = false → Leaves .remainder (.float x) b
  | floatPower {a b : Number} {x y : Float} : Operator.power.converts a b = true →
      a.toFloat = .ok x → b.toFloat = .ok y → LacksPower x y → Leaves .power a b

theorem toFloat_eq_ok_iff (a : Number) : (∃ x, a.toFloat = .ok x) ↔ ¬ a.IsBeyond := by
  cases a with
  | int i =>
    rw [IsBeyond, ← Float64.ofInt?_eq_none_iff, toFloat]
    cases Float64.ofInt? i <;> simp
  | float x => exact iff_of_true ⟨x, rfl⟩ id

theorem onFloats_eq_ok_iff {α : Type} {a b : Number} {f : Float → Float → Except Defect α}
    {r : α} : (do f (← a.toFloat) (← b.toFloat)) = .ok r ↔
      ∃ x y, a.toFloat = .ok x ∧ b.toFloat = .ok y ∧ f x y = .ok r := by
  cases a.toFloat with
  | error d => exact iff_of_false nofun fun ⟨x, _, hx, _⟩ => nomatch hx
  | ok x =>
    cases b.toFloat with
    | error d => exact iff_of_false nofun fun ⟨_, y, _, hy, _⟩ => nomatch hy
    | ok y =>
      refine ⟨fun h => ⟨x, y, rfl, rfl, h⟩, fun ⟨_, _, hx, hy, h⟩ => ?_⟩
      cases hx
      cases hy
      exact h

theorem not_isBeyond {a b : Number} {x y : Float} (hx : a.toFloat = .ok x)
    (hy : b.toFloat = .ok y) : ¬ (a.IsBeyond ∨ b.IsBeyond) :=
  not_or.mpr ⟨(toFloat_eq_ok_iff a).mp ⟨x, hx⟩, (toFloat_eq_ok_iff b).mp ⟨y, hy⟩⟩

theorem exists_toFloat {a b : Number} (h : ¬ (a.IsBeyond ∨ b.IsBeyond)) :
    ∃ x y, a.toFloat = .ok x ∧ b.toFloat = .ok y := by
  obtain ⟨x, hx⟩ := (toFloat_eq_ok_iff a).mpr (h ∘ .inl)
  obtain ⟨y, hy⟩ := (toFloat_eq_ok_iff b).mpr (h ∘ .inr)
  exact ⟨x, y, hx, hy⟩

theorem onFloats_total_iff {a b : Number} (g : Float → Float → Float) :
    (∃ n, (do return .float (g (← a.toFloat) (← b.toFloat)) : Except Defect Number) = .ok n) ↔
      ¬ (a.IsBeyond ∨ b.IsBeyond) := by
  constructor
  · intro ⟨n, hn⟩
    obtain ⟨x, y, hx, hy, _⟩ := onFloats_eq_ok_iff.mp hn
    exact not_isBeyond hx hy
  · intro h
    obtain ⟨x, y, hx, hy⟩ := exists_toFloat h
    exact ⟨_, onFloats_eq_ok_iff.mpr ⟨x, y, hx, hy, rfl⟩⟩

theorem leaves_iff_beyond {op : Operator} {a b : Number} (hremainder : op ≠ .remainder)
    (hpower : op ≠ .power) (hrefuses : op.refuses b = false) (hconverts : op.converts a b = true) :
    Leaves op a b ↔ a.IsBeyond ∨ b.IsBeyond := by
  constructor
  · intro h
    cases h with
    | beyond _ _ hbeyond => exact hbeyond
    | quotient => cases hconverts
    | infiniteDividend => exact absurd rfl hremainder
    | _ => exact absurd rfl hpower
  · exact .beyond hrefuses hconverts

theorem lift_eq_ok_iff {op : Operator} {a b : Number}
    (hop : op = .add ∨ op = .subtract ∨ op = .multiply) (f : Int → Int → Int)
    (g : Float → Float → Float) : (∃ n, lift f g a b = .ok n) ↔ ¬ Leaves op a b := by
  have hfloats (hlift : lift f g a b = do return .float (g (← a.toFloat) (← b.toFloat)))
      (hconverts : op.converts a b = true) : (∃ n, lift f g a b = .ok n) ↔ ¬ Leaves op a b := by
    rw [hlift, onFloats_total_iff, leaves_iff_beyond _ _ _ hconverts] <;>
      obtain rfl | rfl | rfl := hop <;> first | rfl | decide
  cases a with
  | int i =>
    cases b with
    | int j =>
      refine iff_of_true ⟨_, rfl⟩ fun h => ?_
      obtain rfl | rfl | rfl := hop <;> cases h <;> contradiction
    | float y => exact hfloats rfl (by obtain rfl | rfl | rfl := hop <;> rfl)
  | float x => exact hfloats rfl (by obtain rfl | rfl | rfl := hop <;> rfl)

theorem quotient_eq_ok_iff {i j : Int} (hj : j ≠ 0) :
    (∃ x, quotient i j = .ok x) ↔ ¬ Float64.limit * j.natAbs ≤ i.natAbs := by
  rw [quotient, ← Float64.isInf_ofRatio_iff (decide (i < 0) != decide (j < 0)) i.natAbs
    (Int.natAbs_pos.mpr hj)]
  split <;> simp_all

theorem isZero_int {j : Int} : (Number.int j).isZero = true ↔ j = 0 := by
  simp [isZero, equal, compare?]

theorem div_eq_ok_iff {a b : Number} (hb : b.isZero = false) :
    (∃ n, a.div b = .ok n) ↔ ¬ Leaves .divide a b := by
  have hfloats (hdiv : a.div b = do return .float ((← a.toFloat) / (← b.toFloat)))
      (hconverts : Operator.divide.converts a b = true) :
      (∃ n, a.div b = .ok n) ↔ ¬ Leaves .divide a b := by
    rw [hdiv, onFloats_total_iff (· / ·), leaves_iff_beyond (by decide) (by decide)
      (show Operator.divide.refuses b = false from hb) hconverts]
  cases a with
  | int i =>
    cases b with
    | int j =>
      have hj : j ≠ 0 := fun h => by rw [isZero_int.mpr h] at hb; cases hb
      have hdiv : (∃ n, div (.int i) (.int j) = .ok n) ↔ ∃ x, quotient i j = .ok x := by
        rw [div]
        cases quotient i j <;> simp
      rw [hdiv, quotient_eq_ok_iff hj]
      refine not_congr ⟨.quotient hj, fun h => ?_⟩
      cases h with
      | beyond _ hconverts _ => cases hconverts
      | quotient _ hlimit => exact hlimit
    | float y => exact hfloats rfl rfl
  | float x => exact hfloats rfl rfl

theorem not_leaves_of_refuses {op : Operator} {a b : Number} (hb : op.refuses b = true) :
    ¬ Leaves op a b := fun h => by
  cases h with
  | beyond hb' => rw [hb] at hb'; cases hb'
  | quotient hj => exact hj (isZero_int.mp hb)
  | infiniteDividend hb' => exact absurd (hb.symm.trans hb') nofun
  | floatPower => cases hb

theorem isNaN_toFloat {a : Number} {x : Float} (hx : a.toFloat = .ok x) : x.isNaN = a.isNaN := by
  cases a with
  | int i =>
    rw [toFloat] at hx
    split at hx
    next y hy => cases hx; exact (Float64.ofInt?_eq_some hy).2.2
    next => cases hx
  | float y => cases hx; rfl

theorem isInf_toFloat {a : Number} {x : Float} (hx : a.toFloat = .ok x) (hinf : x.isInf = true) :
    a = .float x := by
  cases a with
  | int i =>
    rw [toFloat] at hx
    split at hx
    next y hy => cases hx; rw [(Float64.ofInt?_eq_some hy).2.1] at hinf; cases hinf
    next => cases hx
  | float y => cases hx; rfl

theorem isZero_float {x : Float} {d : Dyadic} (hd : Dyadic.ofFloat? x = some d) :
    (Number.float x).isZero = true ↔ d.magnitude.1 = 0 := by
  simp only [isZero, equal, compare?, compareFloatInt?, hd, Dyadic.compareInt, Dyadic.ratio]
  split <;> simp

theorem magnitude_ne_zero {b : Number} {y : Float} {d : Dyadic} (hb : b.isZero = false)
    (hy : b.toFloat = .ok y) (hd : Dyadic.ofFloat? y = some d) : d.magnitude.1 ≠ 0 := by
  cases b with
  | int j =>
    have hj : j ≠ 0 := fun h => by rw [isZero_int.mpr h] at hb; cases hb
    rw [toFloat] at hy
    split at hy
    next y hj' => cases hy; exact Float64.magnitude_ofInt?_ne_zero hj hj' hd
    next => cases hy
  | float y =>
    cases hy
    exact fun h => by rw [(isZero_float hd).mpr h] at hb; cases hb

theorem floatRemainder_eq_ofRatio {x y : Float} {d e : Dyadic} (hd : Dyadic.ofFloat? x = some d)
    (he : Dyadic.ofFloat? y = some e) (hne : e.magnitude.1 ≠ 0) :
    floatRemainder x y = .ok (Float64.ofRatio d.negative
      (d.magnitude.1 * e.magnitude.2 % (e.magnitude.1 * d.magnitude.2))
      (d.magnitude.2 * e.magnitude.2)) := by
  rw [floatRemainder, Float64.isNaN_of_ofFloat? hd, Float64.isNaN_of_ofFloat? he, hd, he]
  simp [hne]

theorem floatRemainder_of_finite {x y : Float} {d e : Dyadic} (hd : Dyadic.ofFloat? x = some d)
    (he : Dyadic.ofFloat? y = some e) (hne : e.magnitude.1 ≠ 0) :
    ∃ r, floatRemainder x y = .ok r ∧ Dyadic.ofFloat? r ≠ none := by
  have hden : 0 < d.magnitude.2 * e.magnitude.2 :=
    Nat.mul_pos (Nat.two_pow_pos _) (Nat.two_pow_pos _)
  refine ⟨_, floatRemainder_eq_ofRatio hd he hne,
    mt (Float64.ofFloat?_ofRatio_eq_none_iff hden).mp (not_le.mpr ?_)⟩
  calc _ ≤ d.magnitude.1 * e.magnitude.2 := Nat.mod_le _ _
    _ < Float64.limit * d.magnitude.2 * e.magnitude.2 :=
      Nat.mul_lt_mul_of_pos_right (Float64.magnitude_lt_limit hd) (Nat.two_pow_pos _)
    _ = _ := Nat.mul_assoc ..

theorem floatRemainder_eq_ok_iff {b : Number} {x y : Float} (hb : b.isZero = false)
    (hy : b.toFloat = .ok y) :
    (∃ r, floatRemainder x y = .ok r) ↔ ¬ (x.isInf = true ∧ b.isNaN = false) := by
  rw [← isNaN_toFloat hy]
  by_cases hx : x.isNaN = true
  · exact iff_of_true ⟨x, by rw [floatRemainder, if_pos hx]⟩
      (by simp [Float64.isInf_of_isNaN hx])
  by_cases hy' : y.isNaN = true
  · exact iff_of_true ⟨y, by rw [floatRemainder, if_neg hx, if_pos hy']⟩
      fun hstop => Bool.eq_false_iff.mp hstop.2 hy'
  cases hd : Dyadic.ofFloat? x with
  | none =>
    have hinf := ((Float64.ofFloat?_eq_none_iff x).mp hd).resolve_right hx
    refine iff_of_false ?_ (not_not.mpr ⟨hinf, Bool.eq_false_iff.mpr hy'⟩)
    rw [floatRemainder, if_neg hx, if_neg hy', hd]
    nofun
  | some d =>
    have hinf : ¬ x.isInf = true := fun h => by
      rw [(Float64.ofFloat?_eq_none_iff x).mpr (.inl h)] at hd
      cases hd
    refine iff_of_true ?_ (fun h => hinf h.1)
    cases he : Dyadic.ofFloat? y with
    | none => exact ⟨x, by rw [floatRemainder, if_neg hx, if_neg hy', hd, he]⟩
    | some e =>
      obtain ⟨r, hr, _⟩ := floatRemainder_of_finite hd he (magnitude_ne_zero hb hy he)
      exact ⟨r, hr⟩

theorem exists_ofFloat?_of_int {i : Int} {x : Float} (hx : (Number.int i).toFloat = .ok x) :
    ∃ d, Dyadic.ofFloat? x = some d := by
  refine Option.ne_none_iff_exists'.mp fun h => ?_
  obtain hinf | hnan := (Float64.ofFloat?_eq_none_iff x).mp h
  · cases isInf_toFloat hx hinf
  · rw [isNaN_toFloat hx] at hnan
    cases hnan

theorem truncateFloat_eq_ok {i j : Int} {x y r : Float} (hj : (Number.int j).isZero = false)
    (hx : (Number.int i).toFloat = .ok x) (hy : (Number.int j).toFloat = .ok y)
    (hr : floatRemainder x y = .ok r) : ∃ k, truncateFloat r = .ok k := by
  obtain ⟨d, hd⟩ := exists_ofFloat?_of_int hx
  obtain ⟨e, he⟩ := exists_ofFloat?_of_int hy
  obtain ⟨_, hr', hfinite⟩ := floatRemainder_of_finite hd he (magnitude_ne_zero hj hy he)
  cases hr.symm.trans hr'
  obtain ⟨f, hf⟩ := Option.ne_none_iff_exists'.mp hfinite
  exact ⟨f.truncate, by rw [truncateFloat, hf]⟩

theorem mod_eq_ok_iff {a b : Number} (hb : b.isZero = false) :
    (∃ n, a.mod b = .ok n) ↔ ¬ Leaves .remainder a b := by
  have hmod {n : Number} : a.mod b = .ok n ↔ ∃ x y, a.toFloat = .ok x ∧ b.toFloat = .ok y ∧
      (do let r ← floatRemainder x y
          if a.isInt && b.isInt then return Number.int (← truncateFloat r)
          else return Number.float r : Except Defect Number) = .ok n := onFloats_eq_ok_iff
  constructor
  · intro ⟨n, hn⟩ h
    obtain ⟨x, y, hx, hy, hr⟩ := hmod.mp hn
    cases h with
    | beyond _ _ hbeyond =>
      exact not_isBeyond hx hy hbeyond
    | infiniteDividend _ hinf hnan =>
      cases hx
      cases hr' : floatRemainder x y with
      | error d => rw [hr'] at hr; cases hr
      | ok r => exact (floatRemainder_eq_ok_iff hb hy).mp ⟨r, hr'⟩ ⟨hinf, hnan⟩
  · intro h
    have hbeyond : ¬ (a.IsBeyond ∨ b.IsBeyond) := fun hbeyond => h (.beyond hb rfl hbeyond)
    obtain ⟨x, y, hx, hy⟩ := exists_toFloat hbeyond
    have hinf : ¬ (x.isInf = true ∧ b.isNaN = false) := fun ⟨hinf, hnan⟩ => by
      cases isInf_toFloat hx hinf
      exact h (.infiniteDividend hb hinf hnan)
    obtain ⟨r, hr⟩ := (floatRemainder_eq_ok_iff hb hy).mpr hinf
    suffices ∃ n, (if a.isInt && b.isInt then do return Number.int (← truncateFloat r)
        else return Number.float r : Except Defect Number) = .ok n by
      obtain ⟨n, hn⟩ := this
      exact ⟨n, hmod.mpr ⟨x, y, hx, hy, by rw [hr]; exact hn⟩⟩
    cases a with
    | float _ => exact ⟨_, rfl⟩
    | int i =>
      cases b with
      | float _ => exact ⟨_, rfl⟩
      | int j =>
        obtain ⟨k, hk⟩ := truncateFloat_eq_ok hb hx hy hr
        exact ⟨.int k, by rw [hk]; rfl⟩

theorem finitePower_eq_real_iff {x y : Float} :
    (∃ n, finitePower x y = .ok (.real n)) ↔ ¬ (Float.pow x y).isInf = true := by
  rw [finitePower]
  split <;> simp_all

theorem complexPower_ne_real (x y : Float) (n : Number) : complexPower x y ≠ .ok (.real n) := by
  rw [complexPower]
  split <;> nofun

theorem floatPower_eq_real_iff {x y : Float} :
    (∃ n, floatPower x y = .ok (.real n)) ↔ ¬ LacksPower x y := by
  by_cases h : IsOrdinary x y
  · have hpower : floatPower x y = if x == 0 then
          if y < 0 then .error .zeroDivision else .ok (.real (.float (if isOdd y then x else 0)))
        else if x < 0 && !isWhole y then complexPower x y else finitePower x y := by
      rw [floatPower, if_neg (Bool.eq_false_iff.mp h.exponent_ne),
        if_neg (Bool.eq_false_iff.mp h.base_ordered),
        if_neg (Bool.eq_false_iff.mp h.exponent_ordered),
        if_neg (Bool.eq_false_iff.mp h.exponent_bounded),
        if_neg (Bool.eq_false_iff.mp h.base_bounded)]
    rw [hpower]
    split
    next hbase =>
      split
      next hexponent => exact iff_of_false nofun (not_not.mpr (.inverseOfZero h hbase hexponent))
      next hexponent =>
        refine iff_of_true ⟨_, rfl⟩ fun hlacks => ?_
        cases hlacks with
        | inverseOfZero _ _ hy => exact hexponent hy
        | rootOfNegative _ hx | overflow _ hx => exact absurd hbase (Bool.eq_false_iff.mp hx)
    next hbase =>
      have hbase := Bool.eq_false_iff.mpr hbase
      split
      next hroot =>
        simp only [Bool.and_eq_true, decide_eq_true_eq, Bool.not_eq_true'] at hroot
        exact iff_of_false (fun ⟨n, hn⟩ => complexPower_ne_real x y n hn)
          (not_not.mpr (.rootOfNegative h hbase hroot.1 hroot.2))
      next hroot =>
        rw [finitePower_eq_real_iff]
        refine not_congr ⟨.overflow h hbase (by simpa using hroot), fun hlacks => ?_⟩
        cases hlacks with
        | inverseOfZero _ hx => exact absurd hx (Bool.eq_false_iff.mp hbase)
        | rootOfNegative _ _ hx hy => exact absurd (by simp [hx, hy]) hroot
        | overflow _ _ _ hinf => exact hinf
  · refine iff_of_true ?_ fun hlacks => h (by cases hlacks <;> assumption)
    -- The exceptions stand in front of the rest, and each of them has a value.
    rw [floatPower]
    by_cases hzero : (y == 0) = true
    case pos => exact ⟨_, if_pos hzero⟩
    by_cases hbase : x.isNaN = true
    case pos => exact ⟨_, (if_neg hzero).trans (if_pos hbase)⟩
    by_cases hexponent : y.isNaN = true
    case pos => exact ⟨_, (if_neg hzero).trans ((if_neg hbase).trans (if_pos hexponent))⟩
    rw [if_neg hzero, if_neg hbase, if_neg hexponent]
    by_cases hinfinite : y.isInf = true
    case pos =>
      rw [if_pos hinfinite]
      split
      next => exact ⟨_, rfl⟩
      next => split <;> exact ⟨_, rfl⟩
    by_cases hunbounded : x.isInf = true
    case pos =>
      rw [if_neg hinfinite, if_pos hunbounded]
      split <;> exact ⟨_, rfl⟩
    simp only [Bool.not_eq_true] at hzero hbase hexponent hinfinite hunbounded
    exact absurd ⟨hzero, hbase, hexponent, hinfinite, hunbounded⟩ h

theorem pow_eq_real_iff_of_converts {a b : Number} (hconverts : Operator.power.converts a b = true)
    (hpow : a.pow b = do floatPower (← a.toFloat) (← b.toFloat)) :
    (∃ n, a.pow b = .ok (.real n)) ↔ ¬ Leaves .power a b := by
  rw [hpow]
  constructor
  · intro ⟨n, hn⟩ h
    obtain ⟨x, y, hx, hy, hreal⟩ := onFloats_eq_ok_iff.mp hn
    cases h with
    | beyond _ _ hbeyond =>
      exact not_isBeyond hx hy hbeyond
    | floatPower _ hx' hy' hlacks =>
      cases hx.symm.trans hx'
      cases hy.symm.trans hy'
      exact floatPower_eq_real_iff.mp ⟨n, hreal⟩ hlacks
  · intro h
    have hbeyond : ¬ (a.IsBeyond ∨ b.IsBeyond) := fun hbeyond =>
      h (.beyond rfl hconverts hbeyond)
    obtain ⟨x, y, hx, hy⟩ := exists_toFloat hbeyond
    obtain ⟨n, hn⟩ := floatPower_eq_real_iff.mpr fun hlacks =>
      h (.floatPower hconverts hx hy hlacks)
    exact ⟨n, onFloats_eq_ok_iff.mpr ⟨x, y, hx, hy, hn⟩⟩

theorem intPower_eq_pow (a : Int) (n : Nat) : intPower a n = a ^ n := by
  rw [intPower]
  split
  next hunit =>
    obtain rfl | rfl | rfl : a = 0 ∨ a = 1 ∨ a = -1 := by omega
    · split
      next hn => rw [hn, pow_zero]
      next hn => rw [zero_pow hn, mul_zero, ite_self]
    · simp
    · split
      next hn => rw [hn, pow_zero]
      next hn =>
        split
        next heven => rw [Even.neg_one_pow (Nat.even_iff.mpr heven)]; rfl
        next hodd => rw [Odd.neg_one_pow (Nat.odd_iff.mpr (by omega))]
  next => rfl

theorem pow_int (i : Int) {j : Int} (hj : 0 ≤ j) :
    pow (.int i) (.int j) = .ok (.real (.int (i ^ j.toNat))) := by
  rw [pow, if_pos hj, intPower_eq_pow]

theorem pow_eq_real_iff {a b : Number} :
    (∃ n, a.pow b = .ok (.real n)) ↔ ¬ Leaves .power a b := by
  cases a with
  | float x => exact pow_eq_real_iff_of_converts rfl rfl
  | int i =>
    cases b with
    | float y => exact pow_eq_real_iff_of_converts rfl rfl
    | int j =>
      by_cases hj : 0 ≤ j
      · refine iff_of_true ⟨_, pow_int i hj⟩ fun h => ?_
        cases h with
        | beyond _ hconverts | floatPower hconverts =>
          have := of_decide_eq_true hconverts
          omega
      · exact pow_eq_real_iff_of_converts (decide_eq_true (by omega)) (by rw [pow, if_neg hj])

end Number

end StringLambda
