import StringLambda.Proofs.Literal
import StringLambda.Proofs.Naming.Texts
import StringLambda.Proofs.Rendering.Words

namespace StringLambda

/-! A nested list of integers and texts reads back from what it is shown as. What is read is a new
list, with the same data at new places. -/

theorem Run.located_of_ok {α : Type} {act : Run α} {a : α} {m n : Machine} (h : act m = .ok a n)
    (place : Option Position) : Run.located place act m = .ok a n := by
  simp only [Run.located, mapStop, h]

theorem Number.readInt?_digits {n : Nat} (hn : (digits 10 n).length ≤ digitLimit) :
    Number.readInt? 10 (digits 10 n) = some (n : Int) := by
  have hlow : 2 ≤ 10 := by decide
  have hread := Number.readInt?_signedDigits hlow (by decide)
    (fun d hd => digitPlaces_lt hlow hd) (digitPlaces_ne_nil 10 n) digitPlaces_of_head? false
  rw [digits_eq_map hlow, List.length_map] at hn
  have hreadable : isReadable 10 (digitPlaces 10 n).length = true := by simp [isReadable, hn]
  rw [if_pos hreadable, signedValue, digitsValue_digitPlaces, Number.signedDigits] at hread
  rw [digits_eq_map hlow]
  exact hread

theorem Number.read?_digits {n : Nat} (hn : (digits 10 n).length ≤ digitLimit) :
    Number.read? (digits 10 n) = some (.int n) := by
  have hplain : ∀ d < 10,
      (digitChar d == '.' || digitChar d == 'e' || digitChar d == 'E') = false := by
    decide
  have hany : ((digits 10 n).any fun c => c == '.' || c == 'e' || c == 'E') = false := by
    rw [digits_eq_map (by decide)]
    refine List.any_eq_false.mpr fun c hc => ?_
    obtain ⟨d, hd, rfl⟩ := List.mem_map.mp hc
    simp [hplain d (digitPlaces_lt (by decide) hd)]
  rw [Number.read?, hany, Number.readInt?_digits hn]
  rfl

theorem numberValue_digitsWord {i : Int} (hi : ¬ IsLong 10 i) :
    numberValue (digitsWord i.natAbs).2 = pure (.ofInt i.natAbs) := by
  have hlength := (length_digits_le_iff i.natAbs).mpr (Nat.not_le.mp hi)
  rw [numberValue, digitsWord, String.toList_ofList, Number.read?_digits hlength]
  rfl

/-- In every state the tree has a value that holds the datum, and what is in the heap stays. -/
def Tree.Gives (t : Tree) (d : Datum) : Prop :=
  ∀ (call : Caller) (frame : Frame) (m : Machine), ∃ v n, eval call frame t m = .ok v n ∧
    n.heap.Denotes v d ∧ m.heap.Keeps n.heap

def Tree.AllGive (ts : List Tree) (ds : List Datum) : Prop :=
  ∀ (call : Caller) (frame : Frame) (m : Machine), ∃ vs n, evalAll call frame ts m = .ok vs n ∧
    n.heap.DenoteAll vs ds ∧ m.heap.Keeps n.heap

namespace Tree

theorem gives_number {i : Int} (hi : ¬ IsLong 10 i) :
    (leaf .number (digitsWord i.natAbs).2).Gives (.int i.natAbs) := by
  intro call frame m
  refine ⟨.ofInt i.natAbs, m, ?_, .int i.natAbs, .refl _⟩
  rw [eval_leaf, evalLeaf, numberValue_digitsWord hi]
  rfl

theorem gives_negative {t : Tree} {i : Int} (h : t.Gives (.int i)) (place : Option Position) :
    (node .unary place [leaf .op "-", t]).Gives (.int (-i)) := by
  intro call frame m
  obtain ⟨v, n, heval, hv, hkeeps⟩ := h call frame m
  cases hv
  refine ⟨.ofInt (-i), n, ?_, .int (-i), hkeeps⟩
  have hrun : (do
      let op ← (operatorText (leaf .op "-") : Run String)
      Value.signed op (← eval call frame t)) m = .ok (.ofInt (-i)) n := by
    have hop : (operatorText (leaf .op "-") : Run String) m = .ok "-" m := rfl
    rw [Run.bind_of_ok hop, Run.bind_of_ok heval]
    rfl
  rw [eval]
  exact Run.located_of_ok hrun place

theorem gives_text {s : String} (hs : InBasicPlane s.toList) :
    (leaf .string (Text.quoted s)).Gives (.text s) := by
  intro call frame m
  refine ⟨.text s, m, ?_, .text s, .refl _⟩
  rw [eval_leaf, evalLeaf, stringValue_quoted hs]
  rfl

theorem allGive_nil : AllGive [] [] := by
  intro call frame m
  refine ⟨[], m, ?_, .nil, .refl _⟩
  rw [evalAll]
  rfl

theorem AllGive.cons {t : Tree} {ts : List Tree} {d : Datum} {ds : List Datum} (h : t.Gives d)
    (hs : AllGive ts ds) : AllGive (t :: ts) (d :: ds) := by
  intro call frame m
  obtain ⟨v, n, heval, hv, hkeeps⟩ := h call frame m
  obtain ⟨vs, k, hevals, hvs, hkeeps'⟩ := hs call frame n
  refine ⟨v :: vs, k, ?_, .cons (hv.kept hkeeps') hvs, hkeeps.trans hkeeps'⟩
  rw [evalAll, Run.bind_of_ok heval, Run.bind_of_ok hevals]
  rfl

theorem gives_list {ts : List Tree} {ds : List Datum} (h : AllGive ts ds)
    (place : Option Position) : (node .array place ts).Gives (.list ds) := by
  intro call frame m
  obtain ⟨vs, n, hevals, hvs, hkeeps⟩ := h call frame m
  let list := n.heap.alloc (.list vs.toArray)
  have halloc : n.heap.Keeps list.2 := Heap.keeps_alloc _ _
  refine ⟨.list list.1, { n with heap := list.2 }, ?_, ?_, hkeeps.trans halloc⟩
  · have hrun : (do Run.newList (← evalAll call frame ts)) m =
        .ok (.list list.1) { n with heap := list.2 } := by
      rw [Run.bind_of_ok hevals]
      rfl
    rw [eval]
    exact Run.located_of_ok hrun place
  · exact .list (Heap.cell?_alloc_self _ _) (hvs.kept halloc)

end Tree

theorem derives_literal {t : Token} {kind : Kind} {leaf : LeafKind} {text : String}
    (h : t.word = (kind, text)) (hkind : IsLiteral kind leaf) :
    Derives true .unary [t] [.leaf leaf text] := by
  cases h
  exact .unsigned (.bare (.literal hkind))

theorem exists_derives_int {i : Int} (hi : ¬ IsLong 10 i) {ts : List Token}
    (h : ts.map Token.word = intWords i) : ∃ t, Derives true .unary ts [t] ∧ t.Gives (.int i) := by
  have hnumber := Tree.gives_number hi
  unfold intWords at h
  split at h
  next hneg =>
    obtain ⟨op, _, rfl, hop, h⟩ := List.map_eq_cons_iff.mp h
    obtain ⟨t, rfl, ht⟩ := List.map_eq_singleton_iff.mp h
    simp only [Token.word, Prod.mk.injEq] at hop
    have hsign : Signs op "-" := hop.2 ▸ .sign (by simp [hop.1])
    have hnode := Derives.signed hsign (derives_literal ht .number)
    have hgives := Tree.gives_negative hnumber (some op.place)
    rw [show -(i.natAbs : Int) = i by omega] at hgives
    exact ⟨_, hnode, hgives⟩
  next hpos =>
    obtain ⟨t, rfl, ht⟩ := List.map_eq_singleton_iff.mp h
    rw [show (i.natAbs : Int) = i by omega] at hnumber
    exact ⟨_, derives_literal ht .number, hnumber⟩

mutual

theorem exists_derives_datum {d : Datum} (hd : d.InBasicPlane) (hshort : d.IsShort)
    {ts : List Token} (h : ts.map Token.word = d.words) :
    ∃ t, Derives true .expr ts [t] ∧ t.Gives d := by
  cases d with
  | int i =>
      obtain ⟨t, ht, hgives⟩ := exists_derives_int (hshort i (List.mem_singleton_self i)) h
      exact ⟨t, .ofUnary ht, hgives⟩
  | text s =>
      obtain ⟨t, rfl, ht⟩ := List.map_eq_singleton_iff.mp h
      exact ⟨_, .ofUnary (derives_literal ht .string), Tree.gives_text hd⟩
  | list ds =>
      obtain ⟨left, _, rfl, hleft, h⟩ := List.map_eq_cons_iff.mp h
      obtain ⟨inner, _, rfl, hinner, h⟩ := List.map_eq_append_iff.mp h
      obtain ⟨right, rfl, hright⟩ := List.map_eq_singleton_iff.mp h
      simp only [Token.word, Prod.mk.injEq] at hleft hright
      obtain ⟨us, hus, hgive⟩ := exists_derives_items hd (fun _ => hshort.of_mem) hinner
      exact ⟨_, .ofPostfixed (.bare (.array hleft.1 hus hright.1)), Tree.gives_list hgive _⟩
termination_by sizeOf d

theorem exists_derives_items {ds : List Datum} (hds : Datum.AllInBasicPlane ds)
    (hshort : ∀ d ∈ ds, d.IsShort) {ts : List Token} (h : ts.map Token.word = Datum.wordsAll ds) :
    ∃ us, Derives true .items ts us ∧ Tree.AllGive us ds := by
  match ds with
  | [] =>
      rw [Datum.wordsAll, List.map_eq_nil_iff] at h
      subst h
      exact ⟨[], .itemsEnd, Tree.allGive_nil⟩
  | [d] =>
      obtain ⟨t, ht, hgives⟩ := exists_derives_datum hds.1 (hshort d List.mem_cons_self) h
      exact ⟨[t], .lastItem ht, .cons hgives Tree.allGive_nil⟩
  | d :: e :: ds =>
      obtain ⟨front, _, rfl, hfront, h⟩ := List.map_eq_append_iff.mp h
      obtain ⟨comma, rest, rfl, hcomma, hrest⟩ := List.map_eq_cons_iff.mp h
      simp only [Token.word, Prod.mk.injEq] at hcomma
      obtain ⟨t, ht, hgives⟩ := exists_derives_datum hds.1 (hshort d List.mem_cons_self) hfront
      obtain ⟨us, hus, hgive⟩ := exists_derives_items hds.2
        (fun f hf => hshort f (List.mem_cons_of_mem d hf)) hrest
      exact ⟨t :: us, .item ht hcomma.1 hus, .cons hgives hgive⟩
termination_by sizeOf ds

end

theorem exists_ofSource_spelled {ds : List Datum} (hds : (Datum.list ds).InBasicPlane)
    (hshort : (Datum.list ds).IsShort) :
    ∃ t, Tree.ofSource (Datum.list ds).spelled = .ok t ∧ t.Gives (.list ds) := by
  have hwords : HasWords (Datum.list ds).spelled.toList [] (Datum.list ds).words :=
    Datum.hasWords_list _ (Datum.hasWords_spelledAll ds _)
  obtain ⟨ts, hts, hlex⟩ := hwords.exists_tokens
  obtain ⟨t, ht, hgives⟩ := exists_derives_datum hds hshort hts
  have hkinds : ∀ u ∈ ts, u.kind ≠ .eof := fun u hu => (hlex.lexeme_of_mem u hu).kind_ne_eof
  refine ⟨t, ?_, hgives⟩
  rw [Tree.ofSource, sourceTokens, tokenize_of_lexes hlex]
  show (Tree.ofTokens (ts ++ [.stop _])).mapError SourceError.parse = _
  rw [(ofTokens_eq_ok_iff hkinds _ t).mpr ht]
  rfl

/-- A list whose integers keep to the limit on digits reads back from the text that it is shown as.
The value that is read is equal to the list and holds the same data, whatever else there is, and the
list itself is as it was. A list with a longer integer is not shown. -/
theorem readLiteral_render {m : Machine} {r : Ref} {ds : List Datum}
    (hr : m.heap.Denotes (.list r) (.list ds)) (hds : (Datum.list ds).InBasicPlane) (depth : Nat) :
    (¬ (Datum.list ds).IsShort → m.heap.render (.list r) = .error .wrongValue) ∧
    ((Datum.list ds).IsShort → ∃ text v n, m.heap.render (.list r) = .ok text ∧
      readLiteral depth text m = .ok v n ∧
      n.heap.Denotes v (.list ds) ∧ n.heap.Denotes (.list r) (.list ds) ∧
      n.heap.equal v (.list r) = true) := by
  refine ⟨hr.render_eq_error, fun hshort => ?_⟩
  obtain ⟨t, ht, hgives⟩ := exists_ofSource_spelled hds hshort
  obtain ⟨v, n, heval, hv, hkeeps⟩ := hgives (call depth) .bare m
  have hold := hr.kept hkeeps
  exact ⟨_, v, n, hr.render_eq hshort, readLiteral_of_value ht heval, hv, hold, hv.equal_eq hold⟩

/-- A list that is an item twice, beside an integer below zero and a text with a quote, a line feed
and a soft hyphen. -/
theorem readLiteral_render_shared :
    let items : Array Value :=
      #[.list ⟨0, none⟩, .ofInt (-5), .text "it's\n\u00ad", .list ⟨0, none⟩]
    let m : Machine :=
      { Machine.initial with heap := { cells := #[.list #[.ofInt 1], .list items] } }
    let ds : List Datum := [.list [.int 1], .int (-5), .text "it's\n\u00ad", .list [.int 1]]
    let text := "[[1], -5, \"it's\\n\\xad\", [1]]"
    m.heap.Denotes (.list ⟨1, none⟩) (.list ds) ∧ (Datum.list ds).InBasicPlane ∧
      m.heap.render (.list ⟨1, none⟩) = .ok text ∧
      ∃ v n, readLiteral 0 text m = .ok v n ∧
        n.heap.Denotes v (.list ds) ∧ n.heap.Denotes (.list ⟨1, none⟩) (.list ds) ∧
        n.heap.equal v (.list ⟨1, none⟩) = true := by
  intro items m ds text
  have hone : m.heap.Denotes (.list ⟨0, none⟩) (.list [.int 1]) := .list rfl (.cons (.int 1) .nil)
  have hr : m.heap.Denotes (.list ⟨1, none⟩) (.list ds) :=
    .list rfl (.cons hone (.cons (.int (-5)) (.cons (.text _) (.cons hone .nil))))
  have hds : (Datum.list ds).InBasicPlane := by
    simp [ds, Datum.InBasicPlane, Datum.AllInBasicPlane, InBasicPlane]
  have hsmall : ∀ i ∈ (Datum.list ds).integers, i.natAbs < 10 := by decide
  have hshort : (Datum.list ds).IsShort := fun i hi => not_isLong_of_lt (hsmall i hi)
  have hspelled : (Datum.list ds).spelled = text := by decide +kernel
  have hrender : m.heap.render (.list ⟨1, none⟩) = .ok text := hspelled ▸ hr.render_eq hshort
  obtain ⟨read, v, n, hread, h⟩ := (readLiteral_render hr hds 0).2 hshort
  cases hrender.symm.trans hread
  exact ⟨hr, hds, hrender, v, n, h⟩

/-- A list that holds the least integer beyond the limit on digits is not shown. -/
theorem not_render_power_of_ten :
    ¬ ∀ (m : Machine) r ds, m.heap.Denotes (.list r) (.list ds) → (Datum.list ds).InBasicPlane →
      ∀ depth, ∃ text v n, m.heap.render (.list r) = .ok text ∧
        readLiteral depth text m = .ok v n ∧ n.heap.equal v (.list r) = true := by
  intro h
  generalize hi : ((10 ^ 4300 : Nat) : Int) = i at h
  let m : Machine := { Machine.initial with heap := { cells := #[.list #[.ofInt i]] } }
  have hr : m.heap.Denotes (.list ⟨0, none⟩) (.list [.int i]) := .list rfl (.cons (.int i) .nil)
  have hds : (Datum.list [.int i]).InBasicPlane := ⟨trivial, trivial⟩
  have hlong : ¬ (Datum.list [.int i]).IsShort := fun hshort =>
    hshort i List.mem_cons_self (by rw [IsLong, ← hi, Int.natAbs_natCast])
  obtain ⟨text, v, n, hrender, -⟩ := h m ⟨0, none⟩ [.int i] hr hds 0
  cases hrender.symm.trans (hr.render_eq_error hlong)

end StringLambda
