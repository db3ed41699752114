import Mathlib.Data.List.Nodup
import StringLambda.Tree.Parser

namespace StringLambda

open StringLambda.Parser

/-! Parameter lists. The reader of parameters takes distinct names between commas, and behind the
last name one comma more. Any other token list it refuses at the first token with which no such
list goes on. -/

/-- Names with a comma between neighbours. A comma may stand behind the last name. -/
inductive NameList : List Token → List String → Prop where
  | empty : NameList [] []
  | last {t : Token} : t.kind = .ident → NameList [t] [t.text]
  | next {t comma : Token} {ts : List Token} {names : List String} : t.kind = .ident →
      comma.kind = .comma → NameList ts names → NameList (t :: comma :: ts) (t.text :: names)

def ExpectsName (before : List Token) : Prop :=
  ∀ last, before.getLast? = some last → last.kind = .comma

/-- Why a list that begins so, with these names so far, cannot go on with the token. -/
inductive ParseIssue.StopsNames (names : List String) (before : List Token) (t : Token) :
    ParseIssue → Prop
  | expectedParameter : ExpectsName before → t.kind ≠ .ident →
      StopsNames names before t .expectedParameter
  | duplicateParameter : ExpectsName before → t.kind = .ident → t.text ∈ names →
      StopsNames names before t (.duplicateParameter t.text)
  | malformedParameters : ¬ ExpectsName before → t.kind ≠ .comma →
      StopsNames names before t .malformedParameters

theorem expectsName_nil : ExpectsName [] := nofun

theorem not_expectsName_ident {t : Token} (ht : t.kind = .ident) : ¬ ExpectsName [t] := fun h => by
  rw [h t rfl] at ht
  cases ht

theorem expectsName_cons_cons {t comma : Token} {ts : List Token} (hcomma : comma.kind = .comma) :
    ExpectsName (t :: comma :: ts) ↔ ExpectsName ts := by
  cases ts with
  | nil =>
      refine iff_of_true (fun last hlast => ?_) expectsName_nil
      cases hlast
      exact hcomma
  | cons u ts => rw [ExpectsName, List.getLast?_cons_cons, List.getLast?_cons_cons, ExpectsName]

theorem NameList.kind_of_append {before more : List Token} {names others : List String} {t : Token}
    (h : NameList before names) (hmore : NameList (before ++ t :: more) others) :
    (ExpectsName before → t.kind = .ident) ∧ (¬ ExpectsName before → t.kind = .comma) := by
  induction h generalizing others with
  | empty =>
      refine ⟨fun _ => ?_, fun hname => absurd expectsName_nil hname⟩
      cases hmore <;> assumption
  | last hu =>
      refine ⟨fun hname => absurd hname (not_expectsName_ident hu), fun _ => ?_⟩
      cases hmore
      assumption
  | next hu hcomma _ ih =>
      cases hmore with
      | next _ _ hmore => simpa only [expectsName_cons_cons hcomma] using ih hmore

theorem NameList.names_eq {ts : List Token} {names : List String} (h : NameList ts names) :
    names = (ts.filter (·.kind == .ident)).map (·.text) := by
  induction h with
  | empty => rfl
  | last ht => simp [ht]
  | next ht hcomma _ ih => simp [ht, hcomma, ih]

namespace ParseIssue.StopsNames

variable {issue : ParseIssue} {names seen : List String} {before : List Token} {t u comma : Token}

theorem next (h : issue.StopsNames (names ++ u.text :: seen) before t)
    (hcomma : comma.kind = .comma) :
    issue.StopsNames (u.text :: names ++ seen) (u :: comma :: before) t := by
  have hexpects : ExpectsName (u :: comma :: before) ↔ ExpectsName before :=
    expectsName_cons_cons hcomma
  cases h with
  | expectedParameter hname hkind => exact .expectedParameter (hexpects.mpr hname) hkind
  | duplicateParameter hname hkind hmem =>
      exact .duplicateParameter (hexpects.mpr hname) hkind (List.perm_middle.mem_iff.mp hmem)
  | malformedParameters hname hkind => exact .malformedParameters (mt hexpects.mp hname) hkind

theorem not_nameList {more : List Token} {others : List String}
    (h : issue.StopsNames names before t) (hbefore : NameList before names)
    (hothers : others.Nodup) : ¬ NameList (before ++ t :: more) others := by
  intro hmore
  obtain ⟨hident, hcomma⟩ := hbefore.kind_of_append hmore
  cases h with
  | expectedParameter hname hkind => exact hkind (hident hname)
  | malformedParameters hname hkind => exact hkind (hcomma hname)
  | duplicateParameter _ hkind hmem =>
      rw [hmore.names_eq, List.filter_append, List.map_append, ← hbefore.names_eq] at hothers
      exact (List.nodup_append'.mp hothers).2.2 hmem (by simp [hkind])

end ParseIssue.StopsNames

section

variable {seen : List String} {t comma : Token} {ts : List Token}

theorem parameterNames_of_kind (hend : t.kind ≠ .eof) (ht : t.kind ≠ .ident) :
    parameterNames seen (t :: ts) = .error ⟨.expectedParameter, t.place⟩ := by
  rw [parameterNames.eq_def]
  simp [hend, ht]

theorem parameterNames_of_mem (ht : t.kind = .ident) (hseen : t.text ∈ seen) :
    parameterNames seen (t :: ts) = .error ⟨.duplicateParameter t.text, t.place⟩ := by
  rw [parameterNames.eq_def]
  simp [ht, hseen]

theorem parameterNames_next (ht : t.kind = .ident) (hseen : t.text ∉ seen)
    (hcomma : comma.kind = .comma) :
    parameterNames seen (t :: comma :: ts) =
      (parameterNames (t.text :: seen) ts).map (t.text :: ·) := by
  simp [parameterNames, ht, hseen, hcomma]

end

/-- What the reader makes of a list behind names that are taken: the names of the list, or the place
where no list goes on. -/
theorem parameterNames_cases {stop : Token} (hstop : stop.kind = .eof) :
    ∀ (seen : List String) (ts : List Token), (∀ t ∈ ts, t.kind ≠ .eof) →
      (∃ names, parameterNames seen (ts ++ [stop]) = .ok names ∧ NameList ts names ∧
        names.Nodup ∧ names.Disjoint seen) ∨
      ∃ before t after names issue, ts = before ++ t :: after ∧
        parameterNames seen (ts ++ [stop]) = .error ⟨issue, t.place⟩ ∧ NameList before names ∧
        names.Nodup ∧ names.Disjoint seen ∧ issue.StopsNames (names ++ seen) before t
  | seen, [], _ => .inl ⟨[], by simp [parameterNames, hstop], .empty, .nil, by simp⟩
  | seen, t :: ts, hts => by
      rw [List.forall_mem_cons] at hts
      obtain ⟨hend, hts⟩ := hts
      by_cases ht : t.kind = .ident
      case neg =>
        exact .inr ⟨[], t, ts, [], _, rfl, parameterNames_of_kind hend ht, .empty, .nil, by simp,
          .expectedParameter expectsName_nil ht⟩
      by_cases hseen : t.text ∈ seen
      case pos =>
        exact .inr ⟨[], t, ts, [], _, rfl, parameterNames_of_mem ht hseen, .empty, .nil, by simp,
          .duplicateParameter expectsName_nil ht hseen⟩
      have hdisjoint : [t.text].Disjoint seen := by simpa using hseen
      cases ts with
      | nil =>
          refine .inl ⟨[t.text], ?_, .last ht, List.nodup_singleton _, hdisjoint⟩
          simp [parameterNames, ht, hseen, hstop]
      | cons comma ts =>
          rw [List.forall_mem_cons] at hts
          by_cases hcomma : comma.kind = .comma
          case neg =>
            refine .inr ⟨[t], comma, ts, [t.text], .malformedParameters, rfl, ?_, .last ht,
              List.nodup_singleton _, hdisjoint,
              .malformedParameters (not_expectsName_ident ht) hcomma⟩
            simp [parameterNames, ht, hseen, hcomma, hts.1]
          have hnext : parameterNames seen (t :: comma :: (ts ++ [stop])) = _ :=
            parameterNames_next ht hseen hcomma
          rcases parameterNames_cases hstop (t.text :: seen) ts hts.2 with
            ⟨names, hok, hlist, hnodup, hnew⟩ |
            ⟨before, u, after, names, issue, rfl, herror, hlist, hnodup, hnew, hstops⟩
          · rw [List.disjoint_cons_right] at hnew
            rw [hok] at hnext
            exact .inl ⟨t.text :: names, hnext, .next ht hcomma hlist,
              List.nodup_cons.mpr ⟨hnew.1, hnodup⟩, List.disjoint_cons_left.mpr ⟨hseen, hnew.2⟩⟩
          · rw [List.disjoint_cons_right] at hnew
            rw [herror] at hnext
            exact .inr ⟨t :: comma :: before, u, after, t.text :: names, issue, rfl, hnext,
              .next ht hcomma hlist, List.nodup_cons.mpr ⟨hnew.1, hnodup⟩,
              List.disjoint_cons_left.mpr ⟨hseen, hnew.2⟩, hstops.next hcomma⟩

/-- The reader takes the lists of distinct names and gives their names. It refuses any other list
at the first token with which no list goes on. -/
theorem parameters_reads {ts : List Token} {stop : Token} (hts : ∀ t ∈ ts, t.kind ≠ .eof)
    (hstop : stop.kind = .eof) :
    (∀ names, parameters (ts ++ [stop]) = .ok names ↔ NameList ts names ∧ names.Nodup) ∧
    ∀ e, parameters (ts ++ [stop]) = .error e →
      ∃ before t after names, ts = before ++ t :: after ∧ e.place = t.place ∧
        NameList before names ∧ names.Nodup ∧ e.issue.StopsNames names before t ∧
        ∀ more others, ¬ (NameList (before ++ t :: more) others ∧ others.Nodup) := by
  rcases parameterNames_cases hstop [] ts hts with
    ⟨names, hok, hlist, hnodup, -⟩ |
    ⟨before, t, after, names, issue, rfl, herror, hlist, hnodup, -, hstops⟩
  · rw [parameters, hok]
    refine ⟨fun others => ⟨?_, fun ⟨hothers, _⟩ => ?_⟩, nofun⟩
    · rintro ⟨⟩
      exact ⟨hlist, hnodup⟩
    · rw [hothers.names_eq, ← hlist.names_eq]
  · rw [List.append_nil] at hstops
    have hnone (more : List Token) (others : List String) :
        ¬ (NameList (before ++ t :: more) others ∧ others.Nodup) :=
      fun ⟨hmore, hothers⟩ => hstops.not_nameList hlist hothers hmore
    rw [parameters, herror]
    refine ⟨fun others => iff_of_false nofun (hnone after others), ?_⟩
    rintro e ⟨⟩
    exact ⟨before, t, after, names, rfl, rfl, hlist, hnodup, hstops, hnone⟩

theorem parameters_reads_pair :
    let ts : List Token := [⟨.ident, "a", ⟨1, 1⟩⟩, ⟨.comma, ",", ⟨1, 2⟩⟩, ⟨.ident, "b", ⟨1, 4⟩⟩,
      ⟨.comma, ",", ⟨1, 5⟩⟩]
    let stop := Token.stop ⟨1, 6⟩
    (∀ t ∈ ts, t.kind ≠ .eof) ∧ stop.kind = .eof ∧ parameters (ts ++ [stop]) = .ok ["a", "b"] := by
  intro ts stop
  have hts : ∀ t ∈ ts, t.kind ≠ .eof := by decide
  have hstop : stop.kind = .eof := rfl
  exact ⟨hts, hstop, ((parameters_reads hts hstop).1 _).mpr
    ⟨.next rfl rfl (.next rfl rfl .empty), by decide⟩⟩

/-- A list that ends in a comma is no list of names with a comma between neighbours alone. -/
theorem not_forall_parameters_comma :
    ¬ ∀ (ts : List Token) (stop : Token), (∀ t ∈ ts, t.kind ≠ .eof) → stop.kind = .eof →
      ∀ names, parameters (ts ++ [stop]) = .ok names ↔
        (ts = [] ∨ ¬ ExpectsName ts) ∧ NameList ts names ∧ names.Nodup := fun h => by
  have hcomma := h [⟨.ident, "x", ⟨1, 1⟩⟩, ⟨.comma, ",", ⟨1, 2⟩⟩] (.stop ⟨1, 3⟩) (by decide) rfl
    ["x"]
  obtain ⟨hnil | hexpects, -⟩ := hcomma.mp rfl
  · cases hnil
  · exact hexpects fun last hlast => by cases hlast; rfl

end StringLambda
