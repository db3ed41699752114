import StringLambda.Call

namespace StringLambda

/-! Searching in texts. The members that look for one text in another one, compare its ends with it
or replace it all go by the same occurrences, which are the parts that a slice reads. -/

namespace Text

def OccursAt (w text : List Char) (i : Nat) : Prop :=
  i ≤ text.length ∧ w <+: text.drop i

/-- The least position that has a property, if there is one. -/
def IsFirst (p : Nat → Prop) : Option Nat → Prop
  | some i => p i ∧ ∀ j < i, ¬ p j
  | none => ∀ j, ¬ p j

/-- A position as a number, or -1 for none. -/
def place : Option Nat → Int
  | some i => i
  | none => -1

theorem IsFirst.congr {p q : Nat → Prop} {found : Option Nat} (h : IsFirst p found)
    (hpq : ∀ i, p i ↔ q i) : IsFirst q found := by
  rwa [show q = p from funext fun i => propext (hpq i).symm]

theorem IsFirst.map_add {p : Nat → Prop} {start : Nat} {found : Option Nat}
    (h : IsFirst (fun i => p (start + i)) found) :
    IsFirst (fun i => start ≤ i ∧ p i) (found.map (· + start)) := by
  cases found with
  | none =>
      rintro j ⟨hj, hp⟩
      obtain ⟨i, rfl⟩ := Nat.exists_eq_add_of_le hj
      exact h i hp
  | some i =>
      refine ⟨⟨Nat.le_add_left _ _, ?_⟩, ?_⟩
      · show p (i + start)
        rw [Nat.add_comm]
        exact h.1
      · rintro j hlt ⟨hj, hp⟩
        obtain ⟨k, rfl⟩ := Nat.exists_eq_add_of_le hj
        have hk : k < i := by
          have : start + k < i + start := hlt
          omega
        exact h.2 k hk hp

theorem isSome_eq_decide_place (found : Option Nat) : found.isSome = decide (0 ≤ place found) := by
  cases found with
  | none => rfl
  | some i => simp [place]

section

variable {w text : List Char}

theorem occursAt_zero : OccursAt w text 0 ↔ w <+: text := by
  simp [OccursAt]

theorem occursAt_cons_succ {c : Char} {i : Nat} :
    OccursAt w (c :: text) (i + 1) ↔ OccursAt w text i := by
  simp [OccursAt]

theorem occursAt_drop {start i : Nat} (hstart : start ≤ text.length) :
    OccursAt w (text.drop start) i ↔ OccursAt w text (start + i) := by
  rw [OccursAt, OccursAt, List.drop_drop, List.length_drop]
  exact and_congr_left fun _ => by omega

theorem occursAt_iff_slice {i : Nat} :
    OccursAt w text i ↔
      i + w.length ≤ text.length ∧ (text.take (i + w.length)).drop i = w := by
  rw [OccursAt, ← List.take_drop, List.prefix_iff_eq_take]
  constructor
  · rintro ⟨hi, hw⟩
    have hlength := congrArg List.length hw
    rw [List.length_take, List.length_drop] at hlength
    exact ⟨by omega, hw.symm⟩
  · rintro ⟨hi, hw⟩
    exact ⟨by omega, hw.symm⟩

theorem occursAt_end_iff :
    w.length ≤ text.length ∧ OccursAt w text (text.length - w.length) ↔ w <:+ text := by
  constructor
  · rintro ⟨hle, -, hw⟩
    have hlength : (text.drop (text.length - w.length)).length = w.length := by
      rw [List.length_drop]
      omega
    rw [hw.eq_of_length hlength.symm]
    exact List.drop_suffix _ _
  · rintro ⟨front, rfl⟩
    refine ⟨by simp, by simp, ?_⟩
    simp

/-- By induction on the text: an occurrence is at its start or in what is left behind it. -/
theorem firstOccurrence?_isFirst (w text : List Char) :
    IsFirst (OccursAt w text) (firstOccurrence? w text) := by
  induction text with
  | nil =>
      rw [firstOccurrence?]
      split
      next hw =>
        rw [List.isEmpty_iff] at hw
        exact ⟨occursAt_zero.mpr (hw ▸ List.nil_prefix), fun j hj => absurd hj (Nat.not_lt_zero j)⟩
      next hw =>
        rintro j ⟨-, hj⟩
        rw [List.drop_nil, List.prefix_nil] at hj
        exact hw (List.isEmpty_iff.mpr hj)
  | cons c text ih =>
      rw [firstOccurrence?]
      split
      next hw =>
        rw [List.isPrefixOf_iff_prefix] at hw
        exact ⟨occursAt_zero.mpr hw, fun j hj => absurd hj (Nat.not_lt_zero j)⟩
      next hw =>
        rw [List.isPrefixOf_iff_prefix, ← occursAt_zero] at hw
        have hlater : IsFirst (fun i => OccursAt w (c :: text) (1 + i)) (firstOccurrence? w text) :=
          ih.congr fun i => by rw [Nat.add_comm, occursAt_cons_succ]
        refine hlater.map_add.congr fun i => and_iff_right_of_imp fun hi => ?_
        exact Nat.one_le_iff_ne_zero.mpr fun hzero => hw (hzero ▸ hi)

theorem firstOccurrenceFrom?_isFirst (w : List Char) (start : Nat) (text : List Char) :
    IsFirst (fun i => start ≤ i ∧ OccursAt w text i) (firstOccurrenceFrom? w start text) := by
  rw [firstOccurrenceFrom?]
  split
  next hlt =>
    rintro j ⟨hj, hle, -⟩
    omega
  next hle =>
    have hrest := firstOccurrence?_isFirst w (text.drop start)
    exact (hrest.congr fun i => occursAt_drop (Nat.le_of_not_lt hle)).map_add

theorem exists_indexOf (w : List Char) (start : Int) (text : List Char) :
    ∃ found, IsFirst (fun i => start ≤ i ∧ OccursAt w text i) found ∧
      indexOf w start text = place found := by
  refine ⟨firstOccurrenceFrom? w start.toNat text, ?_, ?_⟩
  · exact (firstOccurrenceFrom?_isFirst w start.toNat text).congr fun i => by rw [Int.toNat_le]
  · rw [indexOf]
    cases firstOccurrenceFrom? w start.toNat text <;> rfl

theorem indexOf_zero (w text : List Char) : indexOf w 0 text = place (firstOccurrence? w text) := by
  rw [indexOf, Int.toNat_zero, firstOccurrenceFrom?, if_neg (Nat.not_lt_zero _), List.drop_zero]
  cases firstOccurrence? w text <;> rfl

end

end Text

section

variable {α : Type} (i j : Nat) (items : List α)

theorem clipPosition_natCast (length : Nat) : clipPosition length i = min i length := by
  rw [clipPosition, if_neg (by omega), Int.toNat_natCast]

theorem slice_natCast : slice i (some (j : Int)) items = (items.take j).drop i := by
  simp only [slice, Option.map_some, Option.getD_some, clipPosition_natCast]
  rw [← List.take_eq_take_min]
  obtain hi | hi := Nat.le_total i items.length
  · rw [Nat.min_eq_left hi]
  · have hlength : (items.take j).length ≤ items.length := List.length_take_le' _ _
    rw [Nat.min_eq_right hi, List.drop_eq_nil_of_le hlength,
      List.drop_eq_nil_of_le (Nat.le_trans hlength hi)]

theorem slice_natCast_none : slice i none items = items.drop i := by
  simp only [slice, Option.map_none, Option.getD_none, clipPosition_natCast, List.take_length]
  obtain hi | hi := Nat.le_total i items.length
  · rw [Nat.min_eq_left hi]
  · rw [Nat.min_eq_right hi, List.drop_eq_nil_of_le (by simp), List.drop_eq_nil_of_le hi]

end

namespace TextMember

/-- A call of a member on a text gives a value in every state, and leaves the state as it is. -/
def Gives (member : TextMember) (s : String) (args : List Value) (v : Value) : Prop :=
  ∀ depth context m,
    call (depth + 1) context (.builtin (.text member)) (.text s :: args) m = .ok v m

variable {member : TextMember} {s t : String} {args : List Value} {v w : Value}

theorem gives_of_apply (harity : member.arity.admits args.length = true)
    (happly : member.apply s args = pure v) : member.Gives s args v := by
  intro depth context m
  have hcall : call (depth + 1) context (.builtin (.text member)) (.text s :: args) =
      if member.arity.admits args.length then Run.ofAct (member.apply s args)
      else Run.defect .wrongKind := rfl
  rw [hcall, if_pos harity, happly]
  rfl

theorem Gives.unique (hv : member.Gives s args v) (hw : member.Gives s args w) : v = w := by
  have heq := (hv 0 .plain .initial).symm.trans (hw 0 .plain .initial)
  cases heq
  rfl

theorem gives_slice (i j : Nat) :
    slice.Gives s [.ofNat i, .ofNat j] (.text (String.ofList ((s.toList.take j).drop i))) := by
  rw [← slice_natCast]
  exact gives_of_apply rfl rfl

theorem gives_slice_end (i : Nat) :
    slice.Gives s [.ofNat i] (.text (String.ofList (s.toList.drop i))) := by
  rw [← slice_natCast_none]
  exact gives_of_apply rfl rfl

theorem gives_slice_iff {i j : Nat} :
    slice.Gives s [.ofNat i, .ofNat j] (.text t) ↔ (s.toList.take j).drop i = t.toList := by
  have hgives := gives_slice (s := s) i j
  constructor
  · intro h
    have hvalue := h.unique hgives
    rw [Value.text.injEq] at hvalue
    rw [hvalue, String.toList_ofList]
  · intro h
    rwa [h, String.ofList_toList] at hgives

end TextMember

/-- A slice of a text reads another text, from a position that leaves room for it. -/
def OccursIn (a s : String) (i : Nat) : Prop :=
  i + a.length ≤ s.length ∧ TextMember.slice.Gives s [.ofNat i, .ofNat (i + a.length)] (.text a)

theorem occursIn_iff {a s : String} {i : Nat} :
    OccursIn a s i ↔ Text.OccursAt a.toList s.toList i := by
  rw [OccursIn, TextMember.gives_slice_iff, Text.occursAt_iff_slice, String.length_toList,
    String.length_toList]

section

variable (s a : String)

theorem gives_indexOf (k : Int) :
    TextMember.indexOf.Gives s [.text a, .ofInt k] (.ofInt (Text.indexOf a.toList k s.toList)) :=
  TextMember.gives_of_apply rfl rfl

theorem gives_startsWith : ∃ starts, TextMember.startsWith.Gives s [.text a] (.bool starts) ∧
    (starts = true ↔ OccursIn a s 0) := by
  refine ⟨_, TextMember.gives_of_apply rfl rfl, ?_⟩
  rw [Text.startsWith, List.isPrefixOf_iff_prefix, occursIn_iff, Text.occursAt_zero]

theorem gives_endsWith : ∃ ends, TextMember.endsWith.Gives s [.text a] (.bool ends) ∧
    (ends = true ↔ a.length ≤ s.length ∧ OccursIn a s (s.length - a.length)) := by
  refine ⟨_, TextMember.gives_of_apply rfl rfl, ?_⟩
  rw [Text.endsWith, List.isSuffixOf_iff_suffix, occursIn_iff, ← Text.occursAt_end_iff,
    String.length_toList, String.length_toList]

theorem gives_replace (b : String) : TextMember.replace.Gives s [.text a, .text b]
    (.text (String.ofList (Text.replaceFirst a.toList b.toList s.toList))) :=
  TextMember.gives_of_apply rfl rfl

/-- The members that search in a text agree on where another text occurs in it: the first place from
any start on, whether there is one, the two ends of the text, and the place where the other text is
replaced. -/
theorem text_searches :
    (∀ k : Int, ∃ found, Text.IsFirst (fun i => k ≤ i ∧ OccursIn a s i) found ∧
      TextMember.indexOf.Gives s [.text a, .ofInt k] (.ofInt (Text.place found))) ∧
    ∃ found, Text.IsFirst (OccursIn a s) found ∧
      TextMember.indexOf.Gives s [.text a] (.ofInt (Text.place found)) ∧
      TextMember.includes.Gives s [.text a] (.bool (0 ≤ Text.place found)) ∧
      (∃ starts, TextMember.startsWith.Gives s [.text a] (.bool starts) ∧
        (starts = true ↔ OccursIn a s 0)) ∧
      (∃ ends, TextMember.endsWith.Gives s [.text a] (.bool ends) ∧
        (ends = true ↔ a.length ≤ s.length ∧ OccursIn a s (s.length - a.length))) ∧
      ∀ b : String,
        match found with
        | none => TextMember.replace.Gives s [.text a, .text b] (.text s)
        | some i => ∃ before after,
          TextMember.slice.Gives s [.ofNat 0, .ofNat i] (.text before) ∧
          TextMember.slice.Gives s [.ofNat (i + a.length)] (.text after) ∧
          TextMember.replace.Gives s [.text a, .text b] (.text (before ++ b ++ after)) := by
  refine ⟨fun k => ?_, Text.firstOccurrence? a.toList s.toList, ?_, ?_, ?_, gives_startsWith s a,
    gives_endsWith s a, fun b => ?_⟩
  · obtain ⟨found, hfirst, hfound⟩ := Text.exists_indexOf a.toList k s.toList
    refine ⟨found, hfirst.congr fun i => by rw [occursIn_iff], ?_⟩
    rw [← hfound]
    exact gives_indexOf s a k
  · exact (Text.firstOccurrence?_isFirst _ _).congr fun i => occursIn_iff.symm
  · rw [← Text.indexOf_zero]
    exact TextMember.gives_of_apply rfl rfl
  · rw [← Text.isSome_eq_decide_place]
    exact TextMember.gives_of_apply rfl rfl
  · have hreplace := gives_replace s a b
    rw [Text.replaceFirst] at hreplace
    cases hfound : Text.firstOccurrence? a.toList s.toList with
    | none => simpa only [hfound, String.ofList_toList] using hreplace
    | some i =>
        refine ⟨_, _, TextMember.gives_slice 0 i, TextMember.gives_slice_end _, ?_⟩
        simpa only [hfound, String.ofList_append, String.ofList_toList, String.length_toList,
          List.drop_zero] using hreplace

end

end StringLambda
