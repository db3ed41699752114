import StringLambda.Proofs.Arithmetic.Nesting
import StringLambda.Proofs.Arithmetic.Numbers

namespace StringLambda

/-! Arithmetic on all values: its results are numbers, texts and lists and its refusals evaluation
errors, except at numbers that leave the language. -/

theorem Operator.ofText?_text (op : Operator) : Operator.ofText? op.text = some op := by
  cases op <;> decide

namespace Value

variable {op : Operator} {a b : Value} {s : Arena}

/-- What arithmetic comes to within the language: a number, a text or a list, or an evaluation error
at an operand that is no number or at a divisor that is zero. -/
inductive Closed (op : Operator) (a b : Value) (s : Arena) :
    EStateM.Result Stop Arena Value → Prop
  | number (n : Number) : a.isNumber = true → b.isNumber = true →
      Closed op a b s (.ok (.number n) s)
  | joined (t : String) : op = .add → (a.isText || b.isText) = true →
      Closed op a b s (.ok (.text t) s)
  | appended (q r t : Ref) (s' : Arena) : op = .add → a = .list q → b = .list r →
      Closed op a b s (.ok (.list t) s')
  | refused (v : Value) : v = a ∨ v = b → v.isNumber = false →
      Closed op a b s (.error (.fault (.evaluation (.operandNotNumber op.text v.type) none)) s)
  | zeroDivisor (n : Number) : op = .divide → a.isNumber = true → b = .number n → n.isZero = true →
      Closed op a b s (.error (.fault (.evaluation .divisionByZero none)) s)
  | zeroModulus (n : Number) : op = .remainder → a.isNumber = true → b = .number n →
      n.isZero = true → Closed op a b s (.error (.fault (.evaluation .moduloByZero none)) s)

/-- A failure that the language has no account of, or a result that is none of its values. -/
inductive Escaped (s : Arena) : EStateM.Result Stop Arena Value → Prop
  | defect (d : Defect) : Escaped s (.error (.fault (.builtin d)) s)
  | complex (re im : Float) : Escaped s (.ok (.complex re im) s)

/-- The values at which an operator leaves the language: two numbers at which it does, or a text and
a value in whose text an integer of too many digits is written. -/
inductive Leaves (h : Heap) : Operator → Value → Value → Prop
  | numbers {op : Operator} {m n : Number} : Number.Leaves op m n →
      Leaves h op (.number m) (.number n)
  | longText {a b : Value} : (a.isText || b.isText) = true → h.WritesLong a ∨ h.WritesLong b →
      Leaves h .add a b

/-- An operation on two numbers leaves the language exactly where the operator does. -/
def LeavesOrCloses (op : Operator) (m n : Number) (s : Arena)
    (r : EStateM.Result Stop Arena Value) : Prop :=
  (Number.Leaves op m n ∧ Escaped s r) ∨
    (¬ Number.Leaves op m n ∧ Closed op (.number m) (.number n) s r)

theorem leavesOrCloses_number {m n : Number} {x : Except Defect Number}
    (hx : (∃ k, x = .ok k) ↔ ¬ Number.Leaves op m n) :
    LeavesOrCloses op m n s ((do return .number (← Act.ofDefect x) : Act Value) s) := by
  cases x with
  | error d => exact .inl ⟨by_contra fun h => (nomatch hx.mpr h), .defect d⟩
  | ok k => exact .inr ⟨hx.mp ⟨k, rfl⟩, .number k rfl rfl⟩

theorem leavesOrCloses_power {m n : Number} {x : Except Defect Number.Power}
    (hx : (∃ k, x = .ok (.real k)) ↔ ¬ Number.Leaves op m n) :
    LeavesOrCloses op m n s ((do return ofPower (← Act.ofDefect x) : Act Value) s) := by
  cases x with
  | error d => exact .inl ⟨by_contra fun h => (nomatch hx.mpr h), .defect d⟩
  | ok p =>
    cases p with
    | real k => exact .inr ⟨hx.mp ⟨k, rfl⟩, .number k rfl rfl⟩
    | complex re im => exact .inl ⟨by_contra fun h => (nomatch hx.mpr h), .complex re im⟩

theorem arithmetic_leavesOrCloses (op : Operator) (m n : Number) (s : Arena) :
    LeavesOrCloses op m n s (arithmetic op m n s) := by
  cases op with
  | add => exact leavesOrCloses_number (Number.lift_eq_ok_iff (.inl rfl) _ _)
  | subtract => exact leavesOrCloses_number (Number.lift_eq_ok_iff (.inr (.inl rfl)) _ _)
  | multiply => exact leavesOrCloses_number (Number.lift_eq_ok_iff (.inr (.inr rfl)) _ _)
  | divide =>
    rw [arithmetic]
    split
    next hzero =>
      exact .inr ⟨Number.not_leaves_of_refuses hzero, .zeroDivisor n rfl rfl rfl hzero⟩
    next hzero => exact leavesOrCloses_number (Number.div_eq_ok_iff (Bool.eq_false_iff.mpr hzero))
  | remainder =>
    rw [arithmetic]
    split
    next hzero =>
      exact .inr ⟨Number.not_leaves_of_refuses hzero, .zeroModulus n rfl rfl rfl hzero⟩
    next hzero => exact leavesOrCloses_number (Number.mod_eq_ok_iff (Bool.eq_false_iff.mpr hzero))
  | power => exact leavesOrCloses_power Number.pow_eq_real_iff

theorem applyOperator_of_text (hop : op = .add) (htext : (a.isText || b.isText) = true) :
    applyOperator op a b s = (do
      let left ← Act.ofDefect (s.heap.text a)
      let right ← Act.ofDefect (s.heap.text b)
      return .text (left ++ right) : Act Value) s := by
  unfold applyOperator
  rw [if_pos ⟨hop, htext⟩]
  rfl

theorem joined_leavesOrCloses (htext : (a.isText || b.isText) = true) (ha : s.heap.Acyclic a)
    (hb : s.heap.Acyclic b) :
    (Leaves s.heap .add a b ∧ Escaped s (applyOperator .add a b s)) ∨
      (¬ Leaves s.heap .add a b ∧ Closed .add a b s (applyOperator .add a b s)) := by
  rw [applyOperator_of_text rfl htext]
  cases hleft : s.heap.text a with
  | error d =>
    exact .inl ⟨.longText htext (.inl (Heap.text_settles ha d hleft).2), .defect d⟩
  | ok left =>
    cases hright : s.heap.text b with
    | error d =>
      exact .inl ⟨.longText htext (.inr (Heap.text_settles hb d hright).2), .defect d⟩
    | ok right =>
      refine .inr ⟨fun hleaves => ?_, .joined _ rfl htext⟩
      cases hleaves with
      | numbers => cases htext
      | longText _ hlong =>
        obtain hlong | hlong := hlong
        · exact (Heap.text_eq_ok_iff ha).mp ⟨left, hleft⟩ hlong
        · exact (Heap.text_eq_ok_iff hb).mp ⟨right, hright⟩ hlong

theorem applyOperator_of_operands (htext : ¬ (op = .add ∧ (a.isText || b.isText) = true))
    (hlists : ¬ (op = .add ∧ ∃ q r, a = .list q ∧ b = .list r)) :
    applyOperator op a b = (do
      let x ← a.asOperand op.text
      let y ← b.asOperand op.text
      arithmetic op x y) := by
  unfold applyOperator
  rw [if_neg htext]
  split
  next => exact absurd ⟨rfl, _, _, rfl, rfl⟩ hlists
  next => rfl

theorem isNumber_of_number?_eq_none {v : Value} (hv : v.number? = none) : v.isNumber = false := by
  rw [isNumber, hv]
  rfl

theorem eq_number_of_number? {v : Value} {n : Number} (hv : v.number? = some n) :
    v = .number n := by
  cases v <;> cases hv
  rfl

theorem not_leaves_of_not_number (htext : ¬ (op = .add ∧ (a.isText || b.isText) = true))
    (hnumber : ∀ m n, a = .number m → b ≠ .number n) : ¬ Leaves s.heap op a b := by
  rintro (_ | ⟨hab, -⟩)
  · exact hnumber _ _ rfl rfl
  · exact htext ⟨rfl, hab⟩

/-- Arithmetic on any two values, no sequence nested in itself, stays within the language, except at
the values that leave it, and there it does not. -/
theorem binary_arithmetic (op : Operator) (ha : s.heap.Acyclic a) (hb : s.heap.Acyclic b) :
    (Leaves s.heap op a b ∧ Escaped s (binary op.text a b s)) ∨
      (¬ Leaves s.heap op a b ∧ Closed op a b s (binary op.text a b s)) := by
  have hbinary : binary op.text a b = applyOperator op a b := by
    rw [binary, Operator.ofText?_text]
  rw [hbinary]
  by_cases htext : op = .add ∧ (a.isText || b.isText) = true
  · obtain ⟨rfl, htext⟩ := htext
    exact joined_leavesOrCloses htext ha hb
  by_cases hlists : op = .add ∧ ∃ q r, a = .list q ∧ b = .list r
  · obtain ⟨rfl, q, r, rfl, rfl⟩ := hlists
    exact .inr ⟨not_leaves_of_not_number htext nofun, .appended q r _ _ rfl rfl rfl⟩
  rw [applyOperator_of_operands htext hlists]
  cases hm : a.number? with
  | none =>
    refine .inr ⟨not_leaves_of_not_number htext fun m n h _ => (by rw [h] at hm; cases hm), ?_⟩
    simp only [asOperand, hm]
    exact .refused a (.inl rfl) (isNumber_of_number?_eq_none hm)
  | some m =>
    cases eq_number_of_number? hm
    cases hn : b.number? with
    | none =>
      refine .inr ⟨not_leaves_of_not_number htext fun m n _ h => (by rw [h] at hn; cases hn), ?_⟩
      simp only [asOperand, hm, hn]
      exact .refused b (.inr rfl) (isNumber_of_number?_eq_none hn)
    | some n =>
      cases eq_number_of_number? hn
      obtain ⟨hleaves, hescaped⟩ | ⟨hleaves, hclosed⟩ := arithmetic_leavesOrCloses op m n s
      · exact .inl ⟨.numbers hleaves, hescaped⟩
      · refine .inr ⟨?_, hclosed⟩
        rintro (h | ⟨h, -⟩)
        · exact hleaves h
        · cases h

theorem binary_arithmetic_text :
    let s : Arena := ⟨{ cells := #[.list #[.ofInt 1, .null]] }, 0⟩
    s.heap.Acyclic (.text "a") ∧ s.heap.Acyclic (.list ⟨0, none⟩) ∧
      Closed .add (.text "a") (.list ⟨0, none⟩) s
        (binary Operator.add.text (.text "a") (.list ⟨0, none⟩) s) := by
  intro s
  have hflat (q r : Ref) (hq : s.heap.Nests q r) : False := by
    obtain ⟨v, hv, hr⟩ := hq
    have hsize := (Heap.Part.item (v := .list q) rfl hv).lt_size rfl
    obtain ⟨i, t⟩ := q
    obtain rfl : i = 0 := by simpa [s] using hsize
    obtain rfl | rfl : v = .ofInt 1 ∨ v = .null := by
      simpa [s, Heap.items, Heap.cell?] using hv
    all_goals cases hr
  have htext : s.heap.Acyclic (.text "a") := by
    intro r s hr
    cases hr
  have hlist : s.heap.Acyclic (.list ⟨0, none⟩) := fun _ _ _ _ h =>
    (Relation.TransGen.head'_iff.mp h).elim fun _ h => hflat _ _ h.1
  refine ⟨htext, hlist, ?_⟩
  obtain ⟨-, hescaped⟩ | ⟨-, hclosed⟩ := binary_arithmetic .add htext hlist
  · cases show Escaped s (.ok (.text "a1,") s) from hescaped
  · exact hclosed

/-- The inverse of zero is not refused as a division by zero is. -/
theorem not_closed_inverse_of_zero :
    ¬ ∀ op a b s, s.heap.Acyclic a → s.heap.Acyclic b → Closed op a b s (binary op.text a b s) :=
  fun h =>
    nomatch (show Closed .power (.ofInt 0) (.ofInt (-1)) ⟨.empty, 0⟩
        (.error (.fault (.builtin .zeroDivision)) ⟨.empty, 0⟩) from
      h .power (.ofInt 0) (.ofInt (-1)) ⟨.empty, 0⟩ nofun nofun)

end Value

end StringLambda
