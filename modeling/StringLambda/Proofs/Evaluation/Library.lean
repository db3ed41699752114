import StringLambda.Library.Global
import StringLambda.Library.Method
import StringLambda.Library.Number
import StringLambda.Library.Sequence
import StringLambda.Library.Text
import StringLambda.Proofs.Evaluation.Operations

namespace StringLambda

/-! No compile error ends a function of the library that runs no callbacks. -/

namespace Avoids

variable {σ α β : Type}

theorem mapM {f : α → EStateM Stop σ β} (h : ∀ a, CompileFree (f a)) (as : List α) :
    CompileFree (as.mapM f) := by
  induction as with
  | nil => exact .pure []
  | cons a as ih =>
      rw [List.mapM_cons]
      exact .bind (h a) fun b => .bind ih fun bs => .pure _

theorem forM {f : α → EStateM Stop σ PUnit} (h : ∀ a, CompileFree (f a)) (as : List α) :
    CompileFree (as.forM f) := by
  induction as with
  | nil => exact .pure PUnit.unit
  | cons a as ih => exact .bind (h a) fun _ => ih

theorem foldlM {f : β → α → EStateM Stop σ β} (h : ∀ b a, CompileFree (f b a)) (as : List α)
    (b : β) : CompileFree (as.foldlM f b) := by
  induction as generalizing b with
  | nil => exact .pure b
  | cons a as ih => exact .bind (h b a) fun b => ih b

end Avoids

namespace Value

theorem asCount_compileFree (method : String) (v : Value) : CompileFree (v.asCount method) := by
  unfold asCount
  split
  next => exact .pure _
  next => exact .raise _

theorem asCount?_compileFree (method : String) (v : Value) : CompileFree (v.asCount? method) := by
  unfold asCount?
  split
  next => exact .pure _
  next => exact .bind (asCount_compileFree _ _) fun n => .pure _

theorem asText_compileFree (method : String) (v : Value) : CompileFree (v.asText method) := by
  unfold asText
  split
  next => exact .pure _
  next => exact .raise _

theorem asInteger_compileFree (v : Value) : CompileFree v.asInteger := by
  unfold asInteger
  split
  next => exact .pure _
  next => exact .defect _

theorem asSize_compileFree (v : Value) : CompileFree v.asSize := by
  refine .bind v.asInteger_compileFree fun i => ?_
  split
  next => exact .defect _
  next => exact .pure _

theorem asBound_compileFree (v : Value) : CompileFree v.asBound := by
  unfold asBound
  split
  next => exact .pure _
  next => exact .bind (asInteger_compileFree _) fun i => .pure _

theorem asString_compileFree (v : Value) : CompileFree v.asString := by
  unfold asString
  split
  next => exact .pure _
  next => exact .defect _

theorem iterate_compileFree (v : Value) : CompileFree v.iterate := by
  cases v with
  | list r | tuple r | dict r => exact .bind .heap fun heap => .pure _
  | text s => exact .pure _
  | _ => exact .defect _

end Value

namespace TextMember

theorem splitParts_compileFree (s : String) (separator : Value) :
    CompileFree (splitParts s separator) := by
  unfold splitParts
  split
  next => exact .pure _
  next => exact .bind (Value.asText_compileFree _ _) fun t => .pure _

theorem repeatCount_compileFree (count : Value) : CompileFree (repeatCount count) := by
  have hsized : ∀ n : Int, CompileFree (do
      if n < 0 then Act.raise .negativeRepeat
      if Number.countLimit < n then Act.defect .overflow
      return n.toNat : Act Nat) := by
    intro n
    dsimp only
    split <;> split
    · exact .bind (.raise _) fun _ => .bind (.defect _) fun _ => .pure _
    · exact .bind (.raise _) fun _ => .pure _
    · exact .bind (.defect _) fun _ => .pure _
    · exact .pure _
  have hcount := Avoids.bind (Value.asCount_compileFree "repeat" count) hsized
  unfold repeatCount
  split
  next x =>
    dsimp only
    split
    next => exact .bind (.raise _) fun _ => hcount
    next => exact hcount
  next => exact hcount

theorem repeatText_compileFree (s : String) (count : Value) :
    CompileFree (repeatText s count) := by
  refine .bind (repeatCount_compileFree _) fun n => ?_
  split
  next => exact .defect _
  next =>
    refine .bind .heap fun heap => ?_
    split
    next => exact .defect _
    next =>
      split
      next => exact .pure _
      next => exact .pure _

theorem apply_compileFree (member : TextMember) (s : String) (args : List Value) :
    CompileFree (member.apply s args) := by
  cases member with
  | length | toUpperCase | toLowerCase | trim | toString => exact .pure _
  | charAt => exact .bind (Value.asCount_compileFree _ _) fun i => .pure _
  | indexOf =>
      exact .bind (Value.asText_compileFree _ _) fun needle =>
        .bind (Value.asCount_compileFree _ _) fun start => .pure _
  | includes | startsWith | endsWith =>
      exact .bind (Value.asText_compileFree _ _) fun t => .pure _
  | split =>
      exact .bind (splitParts_compileFree _ _) fun parts =>
        .bind (Value.asCount?_compileFree _ _) fun limit => .newList _
  | slice =>
      exact .bind (Value.asCount_compileFree _ _) fun start =>
        .bind (Value.asCount?_compileFree _ _) fun stop => .pure _
  | concat => exact .bind .heap fun heap => .bind (.ofDefect _) fun t => .pure _
  | repeated => exact repeatText_compileFree _ _
  | replace =>
      exact .bind (Value.asText_compileFree _ _) fun old =>
        .bind .heap fun heap => .bind (.ofDefect _) fun new => .pure _

end TextMember

theorem Number.fixedText_compileFree (n : Number) (digits : Value) :
    CompileFree (n.fixedText digits) := by
  refine .bind (Value.asCount_compileFree _ _) fun places => ?_
  split
  next => exact .raise _
  next => exact .bind (.ofDefect _) fun t => .pure _

theorem radixValue_compileFree (radix i : Int) : CompileFree (radixValue radix i) := by
  unfold radixValue
  split
  next => exact .pure _
  next => exact .raise _

theorem Value.numberText_compileFree (v radix : Value) : CompileFree (v.numberText radix) := by
  refine .bind (Value.asCount_compileFree _ _) fun radix => ?_
  split
  next =>
    split
    next => exact .bind (.ofDefect _) fun s => .pure _
    next => exact radixValue_compileFree _ _
  next => exact .bind (.ofDefect _) fun s => .pure _
  next => exact .pure _
  next => exact .defect _

theorem NumberMember.apply_compileFree (member : NumberMember) (receiver : Value)
    (args : List Value) : CompileFree (member.apply receiver args) := by
  unfold NumberMember.apply
  split
  next => exact Number.fixedText_compileFree _ _
  next => exact Value.numberText_compileFree _ _
  next => exact .defect _

namespace Value

theorem size_compileFree (v : Value) : CompileFree v.size := by
  refine .bind .heap fun heap => ?_
  split
  iterate 4 next => exact .pure _
  next => exact .defect _

theorem candidates_compileFree (args : List Value) : CompileFree (candidates args) := by
  unfold candidates
  split
  next => exact iterate_compileFree _
  next => exact .pure _

theorem best_compileFree (beats : Heap → Value → Value → Except Defect Bool) (args : List Value) :
    CompileFree (best beats args) := by
  refine .bind (candidates_compileFree _) fun vs => ?_
  split
  next => exact .defect _
  next => exact .bind .heap fun heap => .ofDefect _

theorem sortItems_compileFree (v : Value) : CompileFree v.sortItems := by
  refine .bind v.iterate_compileFree fun items => .bind .heap fun heap => ?_
  split
  next => exact .newList _
  next => exact .defect _

theorem asComplex_compileFree (v : Value) : CompileFree v.asComplex := by
  unfold asComplex
  split
  next => exact .pure _
  next => exact .bind (.ofDefect _) fun x => .pure _
  next => exact .defect _

theorem plus_compileFree (a b : Value) : CompileFree (a.plus b) := by
  refine .bind .heap fun heap => ?_
  split
  next => exact .newList _
  next => exact .newTuple _
  next =>
    split
    next => exact .bind (.ofDefect _) fun n => .pure _
    next =>
      split
      next =>
        exact .bind (asComplex_compileFree _) fun _ => .bind (asComplex_compileFree _) fun _ =>
          .pure _
      next => exact .defect _

theorem sum_compileFree (v start : Value) : CompileFree (v.sum start) := by
  refine .bind v.iterate_compileFree fun items => ?_
  split
  next => exact .defect _
  next => exact .foldlM plus_compileFree _ _

theorem absolute_compileFree (v : Value) : CompileFree v.absolute := by
  unfold absolute
  split
  next => exact .bind (.ofDefect _) fun x => .pure _
  next => exact .pure _
  next => exact .defect _

theorem round_compileFree (v places : Value) : CompileFree (v.round places) := by
  unfold round
  split
  next => exact .defect _
  next => exact .bind (.ofDefect _) fun i => .pure _
  next => exact .bind (asInteger_compileFree _) fun i => .bind (.ofDefect _) fun n => .pure _

theorem asMathArgument_compileFree (function : String) (v : Value) :
    CompileFree (v.asMathArgument function) := by
  unfold asMathArgument
  split
  next => exact .pure _
  next => exact .raise _

end Value

theorem GlobalFunction.apply_compileFree (function : GlobalFunction) (args : List Value) :
    CompileFree (function.apply args) := by
  refine .bind .heap fun heap => ?_
  cases function with
  | text | parseFloat | number => exact .bind (.ofDefect _) fun s => .pure _
  | parseInt =>
      exact .bind (Value.asCount_compileFree _ _) fun radix => .bind (.ofDefect _) fun s => .pure _
  | length => exact Value.size_compileFree _
  | absolute => exact Value.absolute_compileFree _
  | least | greatest => exact Value.best_compileFree _ _
  | rounded => exact Value.round_compileFree _ _
  | total => exact Value.sum_compileFree _ _
  | sorted => exact Value.sortItems_compileFree _
  | floor | ceil | roundHalfUp | squareRoot =>
      exact .bind (Value.asMathArgument_compileFree _ _) fun n => .bind (.ofDefect _) fun n =>
        .pure _
  | power =>
      exact .bind (Value.asMathArgument_compileFree _ _) fun base =>
        .bind (Value.asMathArgument_compileFree _ _) fun exponent => .pure _

namespace TextMethod

theorem windowOf_compileFree (cs : List Char) (args : List Value) (i : Nat) :
    CompileFree (windowOf cs args i) :=
  .bind (Value.asBound_compileFree _) fun _ => .bind (Value.asBound_compileFree _) fun _ =>
    .pure _

theorem findPlace_compileFree (s : String) (needle : Value) (bounds : List Value) :
    CompileFree (findPlace s needle bounds) :=
  .bind (windowOf_compileFree _ _ _) fun _ => .bind needle.asString_compileFree fun _ =>
    .pure _

theorem count_compileFree (s : String) (needle : Value) (bounds : List Value) :
    CompileFree (count s needle bounds) :=
  .bind (windowOf_compileFree _ _ _) fun _ => .bind needle.asString_compileFree fun _ =>
    .pure _

theorem anyAffix_compileFree (fits : String → Bool) (vs : List Value) :
    CompileFree (anyAffix fits vs) := by
  induction vs with
  | nil => exact .pure _
  | cons v vs ih =>
      refine .bind v.asString_compileFree fun t => ?_
      split
      next => exact .pure _
      next => exact ih

theorem hasAffix_compileFree (test : List Char → List Char → Bool) (s : String) (affix : Value)
    (bounds : List Value) : CompileFree (hasAffix test s affix bounds) := by
  refine .bind (windowOf_compileFree _ _ _) fun window => ?_
  dsimp only
  split
  next => exact .bind .heap fun heap => .bind (anyAffix_compileFree _ _) fun fits => .pure _
  next => exact .bind (Value.asString_compileFree _) fun t => .pure _

theorem strip_compileFree (s : String) (set : Value) : CompileFree (strip s set) := by
  unfold strip
  split
  next => exact .pure _
  next => exact .bind (Value.asString_compileFree _) fun t => .pure _

theorem fillZeros_compileFree (s : String) (width : Value) : CompileFree (fillZeros s width) := by
  refine .bind width.asSize_compileFree fun width => .bind .heap fun heap => ?_
  split
  next => exact .defect _
  next => exact .pure _

theorem join_compileFree (separator : String) (parts : Value) :
    CompileFree (join separator parts) :=
  .bind parts.iterate_compileFree fun items => .bind (.mapM Value.asString_compileFree items)
    fun _ => .pure _

theorem apply_compileFree (method : Method) (s : String) (args : List Value) :
    CompileFree (apply method s args) := by
  unfold apply
  split
  iterate 4 next => exact .pure _
  next => exact strip_compileFree _ _
  next => exact strip_compileFree _ _
  next => exact fillZeros_compileFree _ _
  next => exact join_compileFree _ _
  next =>
    split
    next => exact .defect _
    next =>
      split
      next =>
        refine .bind (findPlace_compileFree _ _ _) fun place => ?_
        cases place <;> exact .pure _
      next =>
        refine .bind (findPlace_compileFree _ _ _) fun place => ?_
        cases place with
        | some i => exact .pure _
        | none => exact .defect _
      next => exact count_compileFree _ _ _
      next => exact hasAffix_compileFree _ _ _ _
      next => exact hasAffix_compileFree _ _ _ _
      next => exact .defect _
  next => exact .defect _

end TextMethod

namespace ListMethod

theorem index_compileFree (items : List Value) (v : Value) (bounds : List Value) :
    CompileFree (index items v bounds) := by
  refine .bind (Value.asInteger_compileFree _) fun start =>
    .bind (Value.asInteger_compileFree _) fun stop => .bind .heap fun heap => ?_
  split
  next => exact .pure _
  next => exact .defect _

theorem sort_compileFree (list : Ref) : CompileFree (sort list) := by
  refine .bind .heap fun heap => ?_
  split
  refine .bind (.setItems _ _) fun _ => ?_
  split
  next => exact .defect _
  next => exact .pure _

theorem remove_compileFree (list : Ref) (items : List Value) (v : Value) :
    CompileFree (remove list items v) := by
  refine .bind .heap fun heap => ?_
  split
  next => exact .bind (.setItems _ _) fun _ => .pure _
  next => exact .defect _

theorem insert_compileFree (list : Ref) (items : List Value) (position v : Value) :
    CompileFree (insert list items position v) :=
  .bind position.asSize_compileFree fun _ => .bind (.setItems _ _) fun _ => .pure _

theorem apply_compileFree (method : Method) (list : Ref) (args : List Value) :
    CompileFree (apply method list args) := by
  refine .bind .heap fun heap => ?_
  split
  next => exact .bind (.modifyList _ _) fun _ => .pure _
  next =>
    exact .bind (Value.iterate_compileFree _) fun items => .bind (.setItems _ _) fun _ => .pure _
  next => exact insert_compileFree _ _ _ _
  next => exact remove_compileFree _ _ _
  next =>
    split
    next => exact .defect _
    next => exact index_compileFree _ _ _
  next => exact .pure _
  next => exact sort_compileFree _
  next => exact .bind (.setItems _ _) fun _ => .pure _
  next => exact .newList _
  next => exact .defect _

theorem applyTuple_compileFree (method : Method) (tuple : Ref) (args : List Value) :
    CompileFree (applyTuple method tuple args) := by
  unfold applyTuple
  split
  next => exact apply_compileFree _ _ _
  next => exact apply_compileFree _ _ _
  next => exact .defect _

end ListMethod

namespace DictMethod

theorem asKey_compileFree (v : Value) : CompileFree (asKey v) := by
  refine .bind .heap fun heap => ?_
  split
  next => exact .pure _
  next => exact .defect _

theorem put_compileFree (dict : Ref) (label value : Value) : CompileFree (put dict label value) :=
  .bind (.bind (asKey_compileFree _) fun _ => .bind .freshId fun _ => .pure _) fun _ =>
    .bind .heap fun _ => .write _ _

theorem putPair_compileFree (dict : Ref) (pair : Value) : CompileFree (putPair dict pair) := by
  refine .bind pair.iterate_compileFree fun items => ?_
  split
  next => exact put_compileFree _ _ _
  next => exact .defect _

theorem putAll_compileFree (dict : Ref) (pairs : Value) : CompileFree (putAll dict pairs) :=
  .bind pairs.iterate_compileFree fun _ => .bind (.forM (putPair_compileFree dict) _) fun _ =>
    .pure _

theorem get_compileFree (dict : Ref) (label otherwise : Value) :
    CompileFree (get dict label otherwise) :=
  .bind (asKey_compileFree _) fun _ => .bind .heap fun _ => .pure _

theorem pop_compileFree (dict : Ref) (label : Value) (otherwise : Option Value) :
    CompileFree (pop dict label otherwise) := by
  refine .bind .heap fun heap => ?_
  dsimp only
  split
  next =>
    cases otherwise with
    | some v => exact .pure v
    | none => exact .defect _
  next =>
    refine .bind (asKey_compileFree _) fun k => ?_
    split
    next => exact .bind (.write _ _) fun _ => .pure _
    next =>
      cases otherwise with
      | some v => exact .pure v
      | none => exact .defect _

theorem setDefault_compileFree (dict : Ref) (label value : Value) :
    CompileFree (setDefault dict label value) := by
  refine .bind (asKey_compileFree _) fun k => .bind .heap fun heap => ?_
  split
  next => exact .pure _
  next => exact .bind (put_compileFree _ _ _) fun _ => .pure _

end DictMethod

namespace NumberMethod

theorem ratio_compileFree (n : Number) : CompileFree (ratio n) := by
  cases n with
  | int i => exact .newTuple _
  | float x => exact .bind (.ofDefect _) fun _ => .newTuple _

theorem apply_compileFree (method : Method) (n : Number) : CompileFree (apply method n) := by
  unfold apply
  split
  next => exact .pure _
  next => exact ratio_compileFree _
  next => exact .pure _
  next => exact .pure _
  next => exact .defect _

end NumberMethod

namespace Items

theorem pop_compileFree (list : Ref) : CompileFree (pop list) := by
  refine .bind .heap fun heap => .bind .heap fun heap => ?_
  split
  next => exact .pure _
  next => exact .bind (.modifyList _ _) fun _ => .pure _

theorem shift_compileFree (list : Ref) : CompileFree (shift list) := by
  refine .bind .heap fun heap => ?_
  split
  next => exact .pure _
  next => exact .bind (.modifyList _ _) fun _ => .pure _

theorem push_compileFree (list : Ref) (args : List Value) : CompileFree (push list args) :=
  .bind (.modifyList _ _) fun _ => .bind .heap fun _ => .pure _

theorem unshift_compileFree (list : Ref) (args : List Value) : CompileFree (unshift list args) :=
  .bind .heap fun _ => .bind (.setItems _ _) fun _ => .bind .heap fun _ => .pure _

theorem reverse_compileFree (list : Ref) : CompileFree (reverse list) :=
  .bind .heap fun _ => .setItems _ _

end Items

theorem SequenceMember.read_compileFree (member : SequenceMember) (list : Ref)
    (args : List Value) : CompileFree (member.read list args) := by
  refine .bind .heap fun heap => ?_
  cases member with
  | concat => exact .newList _
  | slice =>
      exact .bind (Value.asCount_compileFree _ _) fun start =>
        .bind (Value.asCount?_compileFree _ _) fun stop => .newList _
  | join => exact .bind (Value.asText_compileFree _ _) fun t => .bind (.ofDefect _) fun s => .pure _
  | _ => exact .pure _

end StringLambda
