import Mathlib.Data.List.Forall2
import Mathlib.Data.List.Nodup
import StringLambda.Proofs.Evaluation.Alike
import StringLambda.Proofs.Forms.Arrow

namespace StringLambda

open StringLambda.Parser

/-! Arrows that name a member of their first parameter: the texts `x, a, b -> x.name(a, b)` and
`x -> x.name`, and what their bodies evaluate to. -/

def IsWord (name : String) : Prop :=
  ∃ c w, name.toList = c :: w ∧ opensWord c = true ∧ ∀ d ∈ w, isWordChar d = true

namespace IsWord

variable {name : String} {more : List Char}

theorem of_all {c : Char} {w : List Char} (hname : name.toList = c :: w)
    (hc : opensWord c = true) (hw : w.all isWordChar = true) : IsWord name :=
  ⟨c, w, hname, hc, List.all_eq_true.mp hw⟩

theorem hasWords (h : IsWord name) {d : Char} (hd : isWordChar d = false) :
    HasWords name.toList (d :: more) [(wordKind name, name)] := by
  obtain ⟨c, w, hname, hc, hw⟩ := h
  have hword : HasWords (c :: w) (d :: more) _ := HasWords.lexeme (reads_word_of_not hc hw hd)
  rwa [← hname, String.ofList_toList] at hword

theorem hasWords_last (h : IsWord name) : HasWords name.toList [] [(wordKind name, name)] := by
  obtain ⟨c, w, hname, hc, hw⟩ := h
  have hword := HasWords.lexeme (Lexeme.word hc hw).reads
  rwa [← hname, String.ofList_toList] at hword

end IsWord

theorem namesMember_of_wordKind {t : Token} (h : t.kind = wordKind t.text) : t.NamesMember := by
  have hkeywords : ∀ e ∈ keywords, Text.isIdentifier e.1 = true := by decide
  rw [wordKind] at h
  cases hlookup : keywords.lookup t.text with
  | none => exact .inl (by rw [h, hlookup]; rfl)
  | some k =>
      obtain ⟨front, rest, hsplit, -⟩ := List.lookup_eq_some_iff.mp hlookup
      exact .inr (Text.isIdentifier_iff.mp (hkeywords (t.text, k) (by simp [hsplit])))

/-- The arrow that calls a member of its first parameter on the others. -/
def memberCallText (x : String) (names : List String) (name : String) : String :=
  arrowText (x :: names) (x ++ "." ++ name ++ "(" ++ ", ".intercalate names ++ ")")

def memberReadText (x name : String) : String :=
  arrowText [x] (x ++ "." ++ name)

def memberWords (x name : String) : List (Kind × String) :=
  [(.ident, x), (.dot, "."), (wordKind name, name)]

section

variable {x name : String} {names : List String} (hx : Lexeme .ident x.toList)
  (hname : IsWord name)
include hx hname

theorem hasWords_memberRead : HasWords (x ++ "." ++ name).toList [] (memberWords x name) := by
  have htext : (x ++ "." ++ name).toList = x.toList ++ (['.'] ++ name.toList) := by
    simp [String.toList_append]
  have hword : HasWords x.toList (['.'] ++ name.toList ++ []) [(.ident, String.ofList x.toList)] :=
    HasWords.word hx (by decide)
  rw [String.ofList_toList] at hword
  rw [htext]
  exact .cons hword (.cons (.single (by decide) (by decide)) hname.hasWords_last)

theorem hasWords_memberCall (hnames : ∀ p ∈ names, Lexeme .ident p.toList) :
    HasWords (x ++ "." ++ name ++ "(" ++ ", ".intercalate names ++ ")").toList []
      (memberWords x name ++ (.lpar, "(") :: (parameterWords names ++ [(.rpar, ")")])) := by
  have htext : (x ++ "." ++ name ++ "(" ++ ", ".intercalate names ++ ")").toList =
      x.toList ++ (['.'] ++ (name.toList ++ (['('] ++
        ((", ".intercalate names).toList ++ [')'])))) := by
    simp [String.toList_append]
  have hword (more : List Char) :
      HasWords x.toList ('.' :: more) [(.ident, String.ofList x.toList)] :=
    HasWords.word hx (by decide)
  simp only [String.ofList_toList] at hword
  rw [htext]
  refine .cons (hword _) (.cons (.single (by decide) (by decide)) ?_)
  refine .cons (hname.hasWords (by decide)) (.cons (.single (by decide) (by decide)) ?_)
  exact .append (hasWords_parameters hnames (by decide)) (.single (by decide) (by decide))

end

theorem plainWords_memberRead (x name : String) : PlainWords (memberWords x name) := by
  have harrow : wordKind name ≠ .arrow := wordKind_ne name (by decide) (by decide)
  have heof : wordKind name ≠ .eof := wordKind_ne name (by decide) (by decide)
  simp [memberWords, PlainWords, harrow, heof]

theorem plainWords_memberCall (x name : String) (names : List String) :
    PlainWords
      (memberWords x name ++ (.lpar, "(") :: (parameterWords names ++ [(.rpar, ")")])) := by
  simp only [PlainWords, List.forall_mem_append, List.forall_mem_cons]
  refine ⟨plainWords_memberRead x name, by simp, fun w hw => ?_, by simp⟩
  rcases kind_of_parameterWords w hw with h | h <;> simp [h]

def memberCallTree (place step : Position) (x : String) (names : List String) (name : String) :
    Tree :=
  .node .chain (some place) [.leaf .ident x, .node .method (some step)
    [.leaf .name name, .node .args (some step) (names.map (.leaf .ident))]]

def memberReadTree (place step : Position) (x name : String) : Tree :=
  .node .chain (some place) [.leaf .ident x, .node .field (some step) [.leaf .name name]]

theorem Derives.ofUnary {attached : Bool} {ts : List Token} {t : Tree}
    (h : Derives attached .unary ts [t]) : Derives attached .expr ts [t] := by
  have hproduct : Derives attached (.tier .product) ts [t] := .operand (.base h)
  have hrelation : Derives attached (.tier .relation) ts [t] := .operand (.operand hproduct)
  have hand : Derives attached (.tier .and) ts [t] := .operand (.operand hrelation)
  exact .unconditional (.operand (.operand hand))

theorem Derives.ofPostfixed {attached : Bool} {ts : List Token} {t : Tree}
    (h : Derives attached .postfixed ts [t]) : Derives attached .expr ts [t] :=
  .ofUnary (.unsigned h)

theorem derives_arguments {names : List String} {ts : List Token}
    (h : ts.map Token.word = parameterWords names) :
    Derives true .items ts (names.map (.leaf .ident)) := by
  induction names generalizing ts with
  | nil =>
      rw [parameterWords, List.map_eq_nil_iff] at h
      subst h
      exact .itemsEnd
  | cons p ps ih =>
      have hident {t : Token} (ht : t.word = (.ident, p)) :
          Derives true .expr [t] [.leaf .ident p] := by
        simp only [Token.word, Prod.mk.injEq] at ht
        rw [← ht.2]
        exact .ofPostfixed (.bare (.ident ht.1))
      cases ps with
      | nil =>
          obtain ⟨t, rfl, ht⟩ := List.map_eq_singleton_iff.mp h
          exact .lastItem (hident ht)
      | cons q ps =>
          obtain ⟨t, rest, rfl, ht, hrest⟩ := List.map_eq_cons_iff.mp h
          obtain ⟨comma, rest, rfl, hcomma, hrest⟩ := List.map_eq_cons_iff.mp hrest
          simp only [Token.word, Prod.mk.injEq] at hcomma
          exact .item (hident ht) hcomma.1 (ih hrest)

theorem exists_of_memberWords {x name : String} {more : List (Kind × String)} {ts : List Token}
    (h : ts.map Token.word = memberWords x name ++ more) :
    ∃ v dot n rest, ts = v :: dot :: n :: rest ∧ v.word = (.ident, x) ∧ dot.kind = .dot ∧
      n.text = name ∧ n.NamesMember ∧ rest.map Token.word = more := by
  obtain ⟨v, _, rfl, hv, h⟩ := List.map_eq_cons_iff.mp h
  obtain ⟨dot, _, rfl, hdot, h⟩ := List.map_eq_cons_iff.mp h
  obtain ⟨n, rest, rfl, hn, h⟩ := List.map_eq_cons_iff.mp h
  simp only [Token.word, Prod.mk.injEq] at hdot hn
  exact ⟨v, dot, n, rest, rfl, hv, hdot.1, hn.2, namesMember_of_wordKind (by rw [hn.1, hn.2]), h⟩

theorem exists_derives_memberRead {x name : String} {ts : List Token}
    (h : ts.map Token.word = memberWords x name) :
    ∃ p q, Derives true .expr ts [memberReadTree p q x name] := by
  rw [← List.append_nil (memberWords x name)] at h
  obtain ⟨v, dot, n, rest, rfl, hv, hdot, rfl, hmember, hrest⟩ := exists_of_memberWords h
  rw [List.map_eq_nil_iff] at hrest
  subst hrest
  simp only [Token.word, Prod.mk.injEq] at hv
  refine ⟨v.place, dot.place, ?_⟩
  rw [← hv.2]
  have hstep : Derives true .steps [dot, n] [.node .field (some dot.place) [.leaf .name n.text]] :=
    .field hdot hmember .stepsEnd (by simp [current, Token.beyond])
  exact .ofPostfixed (.chain (.ident hv.1) hstep)

theorem exists_derives_memberCall {x name : String} {names : List String} {ts : List Token}
    (h : ts.map Token.word =
      memberWords x name ++ (.lpar, "(") :: (parameterWords names ++ [(.rpar, ")")])) :
    ∃ p q, Derives true .expr ts [memberCallTree p q x names name] := by
  obtain ⟨v, dot, n, rest, rfl, hv, hdot, rfl, hmember, hrest⟩ := exists_of_memberWords h
  obtain ⟨left, rest, rfl, hleft, hrest⟩ := List.map_eq_cons_iff.mp hrest
  obtain ⟨args, rest, rfl, hargs, hrest⟩ := List.map_eq_append_iff.mp hrest
  obtain ⟨right, rfl, hright⟩ := List.map_eq_singleton_iff.mp hrest
  simp only [Token.word, Prod.mk.injEq] at hv hleft hright
  refine ⟨v.place, dot.place, ?_⟩
  rw [← hv.2]
  have hstep := Derives.method hdot hmember hleft.1 (derives_arguments hargs) hright.1 .stepsEnd
  exact .ofPostfixed (.chain (.ident hv.1) hstep)

section

variable {x name : String} {names : List String}

theorem ofTokens_of_words {words : List (Kind × String)} {bs : List Token} {t : Tree}
    (hbs : bs.map Token.word = words) (hwords : PlainWords words) (h : Derives true .expr bs [t])
    (p : Position) : Tree.ofTokens (bs ++ [.stop p]) = .ok t := by
  refine (ofTokens_eq_ok_iff (fun b hb => ?_) p t).mpr h
  exact (hwords _ (hbs ▸ List.mem_map_of_mem hb)).2

theorem exists_ofSource_memberCall (hparams : ∀ p ∈ x :: names, Lexeme .ident p.toList)
    (hnodup : (x :: names).Nodup) (hname : IsWord name) :
    ∃ p q, ∀ bound, Lambda.ofSource bound (memberCallText x names name) =
      .ok ⟨memberCallText x names name, x :: names, memberCallTree p q x names name, .arrow⟩ := by
  have hwords := plainWords_memberCall x name names
  rw [List.forall_mem_cons] at hparams
  obtain ⟨bs, stop, hbs, hsource⟩ := exists_ofSource_arrowText
    (List.forall_mem_cons.mpr hparams) hnodup (hasWords_memberCall hparams.1 hname hparams.2) hwords
  obtain ⟨p, q, ht⟩ := exists_derives_memberCall hbs
  exact ⟨p, q, hsource _ (ofTokens_of_words hbs hwords ht stop)⟩

theorem exists_ofSource_memberRead (hx : Lexeme .ident x.toList) (hname : IsWord name) :
    ∃ p q, ∀ bound, Lambda.ofSource bound (memberReadText x name) =
      .ok ⟨memberReadText x name, [x], memberReadTree p q x name, .arrow⟩ := by
  have hwords := plainWords_memberRead x name
  obtain ⟨bs, stop, hbs, hsource⟩ := exists_ofSource_arrowText (List.forall_mem_singleton.mpr hx)
    (List.nodup_singleton x) (hasWords_memberRead hx hname) hwords
  obtain ⟨p, q, ht⟩ := exists_derives_memberRead hbs
  exact ⟨p, q, hsource _ (ofTokens_of_words hbs hwords ht stop)⟩

end

theorem Frame.get_bind {ps : List String} {vs : List Value} (hnodup : ps.Nodup)
    (hlen : ps.length = vs.length) (scope : Option Ref) (host : Option Host) :
    List.Forall₂ (fun p v => Frame.get ⟨bind ps vs, scope, host⟩ p = pure v) ps vs := by
  have hkeys : ((ps.zip vs).reverse.map Prod.fst).Nodup := by
    rwa [List.map_reverse, List.nodup_reverse, List.map_fst_zip (Nat.le_of_eq hlen)]
  -- The first entry under a name counts, and no other one is there.
  refine List.forall₂_iff_zip.mpr ⟨hlen, fun {p v} hmem => ?_⟩
  obtain ⟨front, rest, hsplit⟩ := List.append_of_mem (List.mem_reverse.mpr hmem)
  have hlookup : (bind ps vs).lookup p = some v := by
    rw [bind_eq_zip hlen]
    refine List.lookup_eq_some_iff.mpr ⟨front, rest, hsplit, fun e he => ?_⟩
    rw [hsplit, List.map_append, List.nodup_append] at hkeys
    have hne : e.1 ≠ p := hkeys.2.2 e.1 (List.mem_map_of_mem he) p (by simp)
    exact bne_iff_ne.mpr hne.symm
  simp only [Frame.get, hlookup]

theorem evalAll_names {call : Caller} {frame : Frame} {ps : List String} {vs : List Value}
    (h : List.Forall₂ (fun p v => frame.get p = pure v) ps vs) :
    evalAll call frame (ps.map (.leaf .ident)) = pure vs := by
  induction h with
  | nil => rfl
  | cons hp _ ih => simp only [List.map_cons, evalAll, eval, evalLeaf, hp, ih, pure_bind]

section

variable {call : Caller} {x : String} {receiver : Value} {scope : Option Ref} {host : Option Host}
  (p q : Position) (name : String)

theorem eval_memberCall {names : List String} {args : List Value} (hnodup : (x :: names).Nodup)
    (hlen : names.length = args.length) :
    (eval call ⟨Frame.bind (x :: names) (receiver :: args), scope, host⟩
      (memberCallTree p q x names name)).unplaced =
      (callMember call ⟨Frame.bind (x :: names) (receiver :: args), scope, host⟩ receiver name
        args).unplaced := by
  have hcount : (x :: names).length = (receiver :: args).length := congrArg Nat.succ hlen
  cases Frame.get_bind hnodup hcount scope host with
  | cons hx hnames =>
      simp only [memberCallTree, eval, Run.unplaced_located, evalSteps, evalStep, evalStepParts,
        evalArgs, evalAll_names hnames, evalLeaf, hx, pure_bind, bind_pure, Tree.written]

theorem eval_memberRead :
    (eval call ⟨Frame.bind [x] [receiver], scope, host⟩ (memberReadTree p q x name)).unplaced =
      (readField call ⟨Frame.bind [x] [receiver], scope, host⟩ receiver name).unplaced := by
  have hcount : [x].length = [receiver].length := rfl
  cases Frame.get_bind (List.nodup_singleton x) hcount scope host with
  | cons hx _ =>
      simp only [memberReadTree, eval, Run.unplaced_located, evalSteps, evalStep, evalStepParts,
        evalLeaf, hx, pure_bind, bind_pure, Tree.written]

end

end StringLambda
