import StringLambda.Evaluate
import StringLambda.Proofs.Lexing.Words
import StringLambda.Proofs.Parsing

namespace StringLambda

/-! Every text has a spelling as a string literal, between quotes of either kind. The literal takes
a backslash in front of each backslash and of each quote of its own kind, and nothing else. -/

def shielded (quote : Char) (cs : List Char) : List Char :=
  cs.flatMap fun c => if c = '\\' ∨ c = quote then ['\\', c] else [c]

def spelling (quote : Char) (s : String) : String :=
  String.ofList (quote :: (shielded quote s.toList ++ [quote]))

section

variable {quote c : Char} (cs : List Char)

@[simp] theorem shielded_nil : shielded quote [] = [] := rfl

theorem shielded_special (hc : c = '\\' ∨ c = quote) :
    shielded quote (c :: cs) = '\\' :: c :: shielded quote cs := by
  rw [shielded, List.flatMap_cons, if_pos hc]
  rfl

theorem shielded_plain (hc : ¬ (c = '\\' ∨ c = quote)) :
    shielded quote (c :: cs) = c :: shielded quote cs := by
  rw [shielded, List.flatMap_cons, if_neg hc]
  rfl

theorem toList_spelling (s : String) :
    (spelling quote s).toList = quote :: (shielded quote s.toList ++ [quote]) :=
  String.toList_ofList

theorem stringBody_shielded : StringBody quote (shielded quote cs ++ [quote]) := by
  induction cs with
  | nil => exact .close
  | cons c cs ih =>
      by_cases hc : c = '\\' ∨ c = quote
      · rw [shielded_special cs hc]
        exact .escape ih
      · rw [shielded_plain cs hc]
        obtain ⟨hbackslash, hquote⟩ := not_or.mp hc
        exact .plain hquote hbackslash ih

theorem tokenize_spelling (hquote : isQuote quote = true) (s : String) :
    tokenize (spelling quote s) = .ok [⟨.string, spelling quote s, .start⟩,
      .stop (.behind (spelling quote s).toList)] := by
  have hlexeme : Lexeme .string (spelling quote s).toList := by
    rw [toList_spelling]
    exact .string hquote (stringBody_shielded _)
  have hlexes : Lexes [] (spelling quote s).toList [⟨.string, spelling quote s, .start⟩] [] := by
    have h : Lexes [] ((spelling quote s).toList ++ []) _ [] := .lexeme hlexeme.reads .done
    simpa only [List.append_nil, String.ofList_toList, Position.behind_nil] using h
  exact tokenize_of_lexes hlexes

theorem ofSource_spelling (hquote : isQuote quote = true) (s : String) :
    Tree.ofSource (spelling quote s) = .ok (.leaf .string (spelling quote s)) := by
  rw [Tree.ofSource, sourceTokens, tokenize_spelling hquote]
  rfl

/-- The decoder meets backslashes in pairs or before a quote, so that no hexadecimal digits and no
letter stand behind one. -/
theorem unescapeFrom_shielded (hquote : isQuote quote = true) :
    unescapeFrom 0 (shielded quote cs) = cs := by
  induction cs with
  | nil => rfl
  | cons c cs ih =>
      by_cases hc : c = '\\' ∨ c = quote
      · have hletters : c ≠ 'u' ∧ c ≠ 'x' ∧ escapedChar c = c := by
          rcases hc with rfl | rfl
          · decide
          · rcases eq_of_isQuote hquote with rfl | rfl <;> decide
        obtain ⟨hu, hx, hself⟩ := hletters
        rw [shielded_special cs hc]
        simp [unescapeFrom, hu, hx, hself, ih]
      · rw [shielded_plain cs hc]
        simp [unescapeFrom, (not_or.mp hc).1, ih]

theorem unquote_between (hquote : isQuote quote = true) :
    unquote (quote :: (cs ++ [quote])) = cs := by
  rw [unquote, if_pos ⟨eq_of_isQuote hquote, List.getLast?_concat⟩, List.dropLast_concat]

theorem stringValue_spelling (hquote : isQuote quote = true) (s : String) :
    stringValue (spelling quote s) = s := by
  rw [stringValue, toList_spelling, unquote_between _ hquote, unescapeFrom_shielded _ hquote,
    String.ofList_toList]

/-- A text of any characters is one string literal of either kind, and the value of the literal is
the text. -/
theorem spelling_reads (hquote : isQuote quote = true) (s : String) :
    tokenize (spelling quote s) = .ok [⟨.string, spelling quote s, .start⟩,
        .stop (.behind (spelling quote s).toList)] ∧
      stringValue (spelling quote s) = s ∧
      Tree.ofSource (spelling quote s) = .ok (.leaf .string (spelling quote s)) ∧
      ∀ (call : Caller) (frame : Frame) (m : Machine),
        eval call frame (.leaf .string (spelling quote s)) m = .ok (.text s) m := by
  have hvalue := stringValue_spelling hquote s
  refine ⟨tokenize_spelling hquote s, hvalue, ofSource_spelling hquote s, fun call frame m => ?_⟩
  rw [eval_leaf, evalLeaf, hvalue]
  rfl

/-- Line feeds, nulls, both quotes, and what would be escapes if its backslash stood alone. -/
theorem spelling_reads_escapes :
    let s := "\\u0041\\x42\n\x00'\"\\"
    isQuote '\'' = true ∧
      spelling '\'' s = "'\\\\u0041\\\\x42\n\x00\\'\"\\\\'" ∧
      tokenize (spelling '\'' s) = .ok [⟨.string, spelling '\'' s, .start⟩, .stop ⟨2, 8⟩] ∧
      stringValue (spelling '\'' s) = s := by
  intro s
  have hquote : isQuote '\'' = true := rfl
  have hend : Position.behind (spelling '\'' s).toList = ⟨2, 8⟩ := by decide
  obtain ⟨htokens, hvalue, -⟩ := spelling_reads hquote s
  rw [hend] at htokens
  exact ⟨hquote, by decide, htokens, hvalue⟩

end

end StringLambda
