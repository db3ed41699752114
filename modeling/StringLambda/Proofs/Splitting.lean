import StringLambda.Call

namespace StringLambda

/-! Splitting texts. The parts of a text between separators, with the separators between them again,
are the text, and no part holds a separator. -/

namespace Text

section

variable {separator text : List Char}

theorem splitFrom_ne_nil (separator : List Char) (skip : Nat) (text : List Char) :
    splitFrom separator skip text ≠ [] := by
  induction text generalizing skip with
  | nil => exact List.cons_ne_nil _ _
  | cons c text ih =>
      cases skip with
      | succ skip => exact ih skip
      | zero =>
          rw [splitFrom]
          split
          next => exact List.cons_ne_nil _ _
          next => exact mt List.modifyHead_eq_nil_iff.mp (ih 0)

theorem intercalate_modifyHead_cons (separator : List Char) (c : Char) {parts : List (List Char)}
    (hparts : parts ≠ []) :
    separator.intercalate (parts.modifyHead (c :: ·)) = c :: separator.intercalate parts := by
  obtain ⟨part, rest, rfl⟩ := List.exists_cons_of_ne_nil hparts
  cases rest with
  | nil => simp
  | cons next rest => simp [List.intercalate_cons_cons]

theorem prefix_intercalate_cons (separator part : List Char) (parts : List (List Char)) :
    part <+: separator.intercalate (part :: parts) := by
  cases parts with
  | nil => simp
  | cons next parts =>
      rw [List.intercalate_cons_cons, List.append_assoc]
      exact List.prefix_append _ _

/-- By induction on the text: the parts make up what is left of it behind a separator that has been
found. -/
theorem intercalate_splitFrom (hseparator : separator ≠ []) (skip : Nat) (text : List Char) :
    separator.intercalate (splitFrom separator skip text) = text.drop skip := by
  induction text generalizing skip with
  | nil => rw [splitFrom, List.intercalate_singleton, List.drop_nil]
  | cons c text ih =>
      cases skip with
      | succ skip => rw [splitFrom, ih, List.drop_succ_cons]
      | zero =>
          rw [splitFrom, List.drop_zero]
          split
          next hfound =>
            obtain ⟨rest, hrest⟩ := List.isPrefixOf_iff_prefix.mp hfound
            obtain ⟨d, more, rfl⟩ := List.exists_cons_of_ne_nil hseparator
            obtain ⟨rfl, rfl⟩ := List.cons.inj hrest
            rw [List.intercalate_cons_of_ne_nil (splitFrom_ne_nil _ _ _), ih]
            simp
          next => rw [intercalate_modifyHead_cons _ _ (splitFrom_ne_nil _ _ _), ih, List.drop_zero]

/-- A separator across the start of a part would have been found there, as the part is the start of
what is left of the text. -/
theorem not_infix_of_mem_splitFrom (hseparator : separator ≠ []) {skip : Nat} {part : List Char}
    (hpart : part ∈ splitFrom separator skip text) : ¬ separator <:+: part := by
  induction text generalizing skip part with
  | nil =>
      rw [splitFrom, List.mem_singleton] at hpart
      rw [hpart, List.infix_nil]
      exact hseparator
  | cons c text ih =>
      cases skip with
      | succ skip => exact ih hpart
      | zero =>
          rw [splitFrom] at hpart
          split at hpart
          next =>
            obtain rfl | hpart := List.mem_cons.mp hpart
            · rw [List.infix_nil]
              exact hseparator
            · exact ih hpart
          next hfound =>
            have hall := intercalate_splitFrom hseparator 0 text
            obtain ⟨first, rest, hsplit⟩ :=
              List.exists_cons_of_ne_nil (splitFrom_ne_nil separator 0 text)
            rw [hsplit] at hall hpart
            rw [List.modifyHead_cons, List.mem_cons] at hpart
            obtain rfl | hpart := hpart
            · have hfirst : first <+: text := by
                have := prefix_intercalate_cons separator first rest
                rwa [hall, List.drop_zero] at this
              rw [List.infix_cons_iff, not_or]
              refine ⟨fun hstart => hfound ?_, ih (hsplit ▸ List.mem_cons_self)⟩
              rw [List.isPrefixOf_iff_prefix]
              exact hstart.trans (List.cons_prefix_cons.mpr ⟨rfl, hfirst⟩)
            · exact ih (hsplit ▸ List.mem_cons_of_mem _ hpart)

theorem intercalate_nil_map_singleton (text : List Char) :
    List.intercalate [] (text.map ([·])) = text := by
  induction text with
  | nil => rfl
  | cons c text ih =>
      cases text with
      | nil => rfl
      | cons d text => exact congrArg (c :: ·) ih

theorem intercalate_split (separator text : List Char) :
    separator.intercalate (split separator text) = text := by
  rw [split]
  split
  next hempty => rw [List.isEmpty_iff.mp hempty, intercalate_nil_map_singleton]
  next hseparator =>
    rw [intercalate_splitFrom (mt List.isEmpty_iff.mpr hseparator), List.drop_zero]

theorem not_infix_of_mem_split (hseparator : separator ≠ []) {part : List Char}
    (hpart : part ∈ split separator text) : ¬ separator <:+: part := by
  rw [split, if_neg (mt List.isEmpty_iff.mp hseparator)] at hpart
  exact not_infix_of_mem_splitFrom hseparator hpart

end

def parts (separator s : String) : List String :=
  (split separator.toList s.toList).map String.ofList

theorem intercalate_parts (separator s : String) :
    separator.intercalate (parts separator s) = s := by
  rw [← String.toList_inj, String.toList_intercalate, parts, List.map_map]
  simpa [Function.comp_def] using intercalate_split separator.toList s.toList

end Text

theorem Heap.items_alloc_list (h : Heap) (items : Array Value) :
    (h.alloc (.list items)).2.items (h.alloc (.list items)).1 = items.toList := by
  rw [Heap.items, cell?_alloc_self]

theorem exists_newList (items : List Value) (m : Machine) :
    ∃ list n, Run.newList items m = .ok (.list list) n ∧ n.heap.items list = items :=
  ⟨_, _, rfl, m.heap.items_alloc_list items.toArray⟩

section

variable (parts : List String) (m : Machine)

theorem mapM_texts {f : Value → Except Defect String} (hf : ∀ s, f (.text s) = .ok s) :
    (parts.map .text).mapM f = .ok parts := by
  induction parts with
  | nil => rfl
  | cons part parts ih =>
      rw [List.map_cons, List.mapM_cons, hf, ih]
      rfl

theorem Items.join_texts (h : Heap) (separator : String) :
    Items.join h separator (parts.map .text) = .ok (separator.intercalate parts) := by
  rw [Items.join, mapM_texts parts fun _ => rfl]
  rfl

theorem call_split (depth : Nat) (context : Context) (s separator : String) :
    call (depth + 1) context (.builtin (.text .split)) [.text s, .text separator] m =
      Run.newList ((Text.parts separator s).map .text) m := by
  rw [Text.parts, List.map_map]
  rfl

theorem call_split_limited (depth : Nat) (context : Context) (s separator : String) (k : Int) :
    call (depth + 1) context (.builtin (.text .split)) [.text s, .text separator, .ofInt k] m =
      Run.newList (((Text.parts separator s).take k.toNat).map .text) m := by
  rw [Text.parts, ← List.map_take, List.map_map]
  rfl

variable {parts m}

theorem call_join {list : Ref} (hlist : m.heap.items list = parts.map .text)
    (depth : Nat) (context : Context) (separator : String) :
    call (depth + 1) context (.builtin (.sequence .join)) [.list list, .text separator] m =
      .ok (.text (separator.intercalate parts)) m := by
  show Run.ofAct (do
    return Value.text (← Act.ofDefect (Items.join m.heap separator (m.heap.items list)))) m = _
  rw [hlist, Items.join_texts]
  rfl

end

/-- The parts that a text is split into give the text again when they are joined with the separator,
which no part holds unless it is empty. A limit leaves that many parts from the first on. -/
theorem split_then_join (s separator : String) :
    ∃ parts : List String,
      (separator ≠ "" → ∀ part ∈ parts, ¬ separator.toList <:+: part.toList) ∧
      ∀ depth context m,
        (∃ list n,
          call (depth + 1) context (.builtin (.text .split)) [.text s, .text separator] m =
            .ok (.list list) n ∧
          n.heap.items list = parts.map .text ∧
          call (depth + 1) context (.builtin (.sequence .join)) [.list list, .text separator] n =
            .ok (.text s) n) ∧
        ∀ k : Int, ∃ list n,
          call (depth + 1) context (.builtin (.text .split))
            [.text s, .text separator, .ofInt k] m = .ok (.list list) n ∧
          n.heap.items list = (parts.take (max 0 k).toNat).map .text := by
  refine ⟨Text.parts separator s, fun hseparator part hpart => ?_, fun depth context m => ⟨?_, ?_⟩⟩
  · obtain ⟨cs, hcs, rfl⟩ := List.mem_map.mp hpart
    rw [String.toList_ofList]
    exact Text.not_infix_of_mem_split (by simpa using hseparator) hcs
  · obtain ⟨list, n, hnew, hitems⟩ := exists_newList ((Text.parts separator s).map .text) m
    have hjoin := call_join hitems depth context separator
    rw [Text.intercalate_parts] at hjoin
    exact ⟨list, n, (call_split m depth context s separator).trans hnew, hitems, hjoin⟩
  · intro k
    obtain ⟨list, n, hnew, hitems⟩ :=
      exists_newList (((Text.parts separator s).take k.toNat).map .text) m
    rw [show (max 0 k).toNat = k.toNat by omega]
    exact ⟨list, n, (call_split_limited m depth context s separator k).trans hnew, hitems⟩

/-- Of two places of a separator that overlap, the text is split at the first one. -/
theorem split_then_join_overlapping : "ana" ≠ "" ∧
    (∃ parts : List String, (∀ part ∈ parts, ¬ "ana".toList <:+: part.toList) ∧
      parts.map .text = [Value.text "b", .text "na"]) ∧
    ∃ list n,
      call 1 .plain (.builtin (.text .split)) [.text "banana", .text "ana"] .initial =
        .ok (.list list) n ∧
      call 1 .plain (.builtin (.sequence .join)) [.list list, .text "ana"] n =
        .ok (.text "banana") n := by
  have hseparator : "ana" ≠ "" := by decide
  obtain ⟨parts, hparts, hcalls⟩ := split_then_join "banana" "ana"
  obtain ⟨⟨list, n, hsplit, hitems, hjoin⟩, -⟩ := hcalls 0 .plain .initial
  have hvalues : parts.map .text = [Value.text "b", .text "na"] := by
    rw [← hitems]
    cases hsplit
    rfl
  exact ⟨hseparator, ⟨parts, hparts hseparator, hvalues⟩, list, n, hsplit, hjoin⟩

end StringLambda
