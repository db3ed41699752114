import StringLambda.Lambda

namespace StringLambda

open StringLambda.Parser

/-! What a lambda that compiles looks like in each of the four forms. -/

namespace Lambda

variable {bound : String → Bool} {source : String} {ts : List Token} {f : Lambda}

theorem cutAtArrows_of_none (h : ∀ t ∈ ts, t.kind ≠ .arrow) : cutAtArrows ts = (ts, []) := by
  induction ts with
  | nil => rfl
  | cons t ts ih =>
      rw [List.forall_mem_cons] at h
      simp only [cutAtArrows, ih h.2, if_neg h.1]

theorem kind_ne_arrow_of_cutAtArrows (h : (cutAtArrows ts).2 = []) : ∀ t ∈ ts, t.kind ≠ .arrow := by
  induction ts with
  | nil => simp
  | cons t ts ih =>
      simp only [cutAtArrows] at h
      split at h
      next => cases h
      next harrow => exact List.forall_mem_cons.mpr ⟨harrow, ih h⟩

theorem cutAtArrows_append {front rest : List Token} {arrow : Token}
    (h : ∀ t ∈ front, t.kind ≠ .arrow) (harrow : arrow.kind = .arrow) :
    cutAtArrows (front ++ arrow :: rest) =
      (front, (cutAtArrows rest).1 :: (cutAtArrows rest).2) := by
  induction front with
  | nil => simp only [List.nil_append, cutAtArrows, harrow, if_true]
  | cons t front ih =>
      rw [List.forall_mem_cons] at h
      simp only [List.cons_append, cutAtArrows, ih h.2, if_neg h.1]

/-- The lambda of a token list that is not empty, with what makes the list of that form. -/
inductive Compiles (bound : String → Bool) (source : String) (ts : List Token) : Lambda → Prop where
  | arrow {params : List String} {body : Tree} :
      (cutAtArrows ts).2 ≠ [] →
      arrowParts (ts.getLastD .beyond) (cutAtArrows ts).1 (cutAtArrows ts).2 = .ok (params, body) →
      Compiles bound source ts ⟨source, params, body, .arrow⟩
  | placeholder {body : Tree} :
      (∀ t ∈ ts, t.kind ≠ .arrow) → usesPlaceholder false ts = true →
      Tree.ofTokens ts = .ok body →
      Compiles bound source ts ⟨source, [placeholderName], body, .placeholder⟩
  | section {params : List String} {tokens : List Token} {body : Tree} :
      (∀ t ∈ ts, t.kind ≠ .arrow) → usesPlaceholder false ts = false →
      sectionParts? ts = some (params, tokens) → Tree.ofTokens tokens = .ok body →
      Compiles bound source ts ⟨source, params, body, .section⟩
  | implicit {body : Tree} :
      (∀ t ∈ ts, t.kind ≠ .arrow) → usesPlaceholder false ts = false →
      sectionParts? ts = none → Tree.ofTokens ts = .ok body →
      Compiles bound source ts ⟨source, freeParams bound body, body, .implicit⟩

theorem compiles_of_ofTokens (h : ofTokens bound source ts = .ok f) :
    Compiles bound source ts f := by
  unfold ofTokens at h
  split at h
  next => cases h
  next =>
    dsimp only at h
    split at h
    next harrow =>
      obtain ⟨⟨params, body⟩, hparts, h⟩ := bind_eq_ok_iff.mp h
      cases h
      exact .arrow (by simpa using harrow) hparts
    next harrow =>
      have hts : ∀ t ∈ ts, t.kind ≠ .arrow := kind_ne_arrow_of_cutAtArrows (by simpa using harrow)
      split at h
      next hplace =>
        obtain ⟨body, hbody, h⟩ := bind_eq_ok_iff.mp h
        cases h
        exact .placeholder hts hplace hbody
      next hplace =>
        rw [Bool.not_eq_true] at hplace
        split at h
        next hparts =>
          obtain ⟨body, hbody, h⟩ := bind_eq_ok_iff.mp h
          cases h
          exact .section hts hplace hparts hbody
        next hparts =>
          obtain ⟨body, hbody, h⟩ := bind_eq_ok_iff.mp h
          cases h
          exact .implicit hts hplace hparts hbody

theorem ofTokens_eq_ok_iff_compiles :
    ofTokens bound source ts = .ok f ↔ (current ts).kind ≠ .eof ∧ Compiles bound source ts f := by
  constructor
  · intro h
    refine ⟨fun heof => ?_, compiles_of_ofTokens h⟩
    rw [ofTokens, if_pos heof] at h
    cases h
  · rintro ⟨heof, h⟩
    rw [ofTokens, if_neg heof]
    cases h with
    | arrow harrow hparts =>
        dsimp only
        rw [if_pos (by simpa using harrow), hparts]
        rfl
    | placeholder harrow hplace hbody =>
        rw [cutAtArrows_of_none harrow]
        dsimp only
        rw [if_neg (by simp), if_pos hplace, hbody]
        rfl
    | «section» harrow hplace hparts hbody =>
        rw [cutAtArrows_of_none harrow]
        dsimp only
        rw [if_neg (by simp), if_neg (by simp [hplace]), hparts]
        dsimp only
        rw [hbody]
        rfl
    | implicit harrow hplace hparts hbody =>
        rw [cutAtArrows_of_none harrow]
        dsimp only
        rw [if_neg (by simp), if_neg (by simp [hplace]), hparts]
        dsimp only
        rw [hbody]
        rfl

end Lambda

end StringLambda
