import StringLambda.Evaluate
import StringLambda.Invoke
import StringLambda.Proofs.Stops

namespace StringLambda

/-! Operations on values raise evaluation errors and fail as built-in operations do. No compile
error ends them. -/

variable {σ α β : Type}

abbrev CompileFree (act : EStateM Stop σ α) : Prop :=
  Avoids Stop.isCompileError act

namespace Avoids

theorem raise (issue : EvalIssue) : CompileFree (Act.raise issue : Act α) := fun _ => rfl

theorem defect (d : Defect) : CompileFree (Act.defect d : Act α) := fun _ => rfl

theorem ofDefect (x : Except Defect α) : CompileFree (Act.ofDefect x) := by
  cases x with
  | ok a => exact .pure a
  | error d => exact defect d

theorem heap : CompileFree Act.heap := fun _ => rfl

theorem alloc (c : Cell) : CompileFree (Act.alloc c) := fun _ => rfl

theorem write (r : Ref) (c : Cell) : CompileFree (Act.write r c) := fun _ => rfl

theorem modifyList (r : Ref) (f : Array Value → Array Value) : CompileFree (Act.modifyList r f) :=
  fun _ => rfl

theorem setItems (r : Ref) (items : List Value) : CompileFree (Act.setItems r items) :=
  write r _

theorem newList (items : List Value) : CompileFree (Act.newList items) := fun _ => rfl

theorem newTuple (items : List Value) : CompileFree (Act.newTuple items) := fun _ => rfl

theorem newDict (entries : List Entry) : CompileFree (Act.newDict entries) := fun _ => rfl

theorem freshId : CompileFree Act.freshId := fun _ => rfl

end Avoids

namespace Value

theorem asOperand_compileFree (op : String) (v : Value) : CompileFree (v.asOperand op) := by
  unfold asOperand
  split
  next => exact .pure _
  next => exact .raise _

theorem arithmetic_compileFree (op : Operator) (a b : Number) :
    CompileFree (arithmetic op a b) := by
  cases op with
  | add | subtract | multiply | power => exact .bind (.ofDefect _) fun n => .pure _
  | divide | remainder =>
      simp only [arithmetic]
      split
      next => exact .raise _
      next => exact .bind (.ofDefect _) fun n => .pure _

theorem binary_compileFree (op : String) (a b : Value) : CompileFree (binary op a b) := by
  unfold binary
  split
  next op _ =>
    unfold applyOperator
    split
    next =>
      exact .bind .heap fun heap => .bind (.ofDefect _) fun s => .bind (.ofDefect _) fun t =>
        .pure _
    next =>
      split
      next => exact .bind .heap fun heap => .newList _
      next =>
        exact .bind (asOperand_compileFree _ _) fun x => .bind (asOperand_compileFree _ _) fun y =>
          arithmetic_compileFree _ _ _
  next => exact .raise _

theorem ordered_compileFree (op : Comparator) (a b : Value) : CompileFree (ordered op a b) := by
  unfold ordered
  split
  next => exact .pure _
  next => exact .pure _
  next => exact .raise _

theorem membership_compileFree (a b : Value) : CompileFree (membership a b) := by
  refine .bind .heap fun heap => ?_
  split
  iterate 3 next => exact .pure _
  next =>
    split
    next => exact .pure _
    next => exact .raise _
  next => exact .raise _

theorem comparison_compileFree (op : String) (a b : Value) : CompileFree (comparison op a b) := by
  unfold comparison
  split
  next op _ =>
    refine .bind ?_ fun holds => .pure _
    cases op with
    | equal | unequal | strictEqual | strictUnequal => exact .bind .heap fun heap => .pure _
    | member => exact membership_compileFree _ _
    | _ => exact ordered_compileFree _ _ _
  next => exact .raise _

theorem signed_compileFree (op : String) (v : Value) : CompileFree (signed op v) := by
  unfold signed
  split
  next => exact .bind .heap fun heap => .pure _
  next => exact .bind (asOperand_compileFree _ _) fun n => .pure _
  next => exact .bind (asOperand_compileFree _ _) fun n => .pure _
  next => exact .raise _

theorem index_compileFree (v i : Value) : CompileFree (v.index i) := by
  refine .bind .heap fun heap => ?_
  dsimp only
  split
  iterate 3 next => exact .pure _
  next =>
    split
    next => exact .pure _
    next => exact .raise _
  next => exact .raise _

theorem lambdaPart?_compileFree (f : Lambda) (name : String) :
    CompileFree (lambdaPart? f name) := by
  unfold lambdaPart?
  split
  next => exact .pure _
  next => exact .bind (.newTuple _) fun v => .pure _
  next => exact .pure _
  next => exact .pure _
  next => exact .bind (.alloc _) fun place => .pure _
  next => exact .pure _

theorem boundPart?_compileFree (v : Value) (name : String) : CompileFree (v.boundPart? name) := by
  unfold boundPart?
  split
  next => exact .pure _
  next => exact .bind (.newTuple _) fun v => .pure _
  next => exact .bind (.newDict _) fun v => .pure _
  next => exact .pure _

theorem part?_compileFree (v : Value) (name : String) : CompileFree (v.part? name) := by
  unfold part?
  split
  next => exact .bind .heap fun heap => .pure _
  next => exact .pure _
  next => exact lambdaPart?_compileFree _ _
  next => exact boundPart?_compileFree _ _
  next => exact .pure _

theorem attribute?_compileFree (v : Value) (name : String) : CompileFree (v.attribute? name) := by
  refine .bind (part?_compileFree _ _) fun part => ?_
  split
  next => exact .pure _
  next =>
    split
    next => exact .bind .freshId fun id => .pure _
    next => exact .pure _

theorem entry?_compileFree (v : Value) (name : String) : CompileFree (v.entry? name) := by
  unfold entry?
  split
  next => exact .bind .heap fun heap => .pure _
  next => exact .pure _

end Value

theorem scopeNames_compileFree (scope : Option Ref) : CompileFree (scopeNames scope) := by
  cases scope with
  | some r => exact .bind .heap fun heap => .pure _
  | none => exact .pure _

theorem Frame.scopeEntries_compileFree (scope : Option Ref) :
    CompileFree (Frame.scopeEntries scope) := by
  cases scope with
  | some r => exact .bind .heap fun heap => .pure _
  | none => exact .pure _

theorem numberValue_compileFree (literal : String) : CompileFree (numberValue literal) := by
  unfold numberValue
  split
  next => exact .pure _
  next => exact .defect _

theorem parameterTexts_compileFree (ts : List Tree) : CompileFree (parameterTexts ts) := by
  induction ts with
  | nil => exact .pure _
  | cons t ts ih =>
      cases t with
      | leaf kind text => exact .bind ih fun texts => .pure _
      | node label place cs => exact .defect _

theorem operatorText_compileFree (t : Tree) : CompileFree (operatorText t) := by
  unfold operatorText
  split
  next => exact .pure _
  next => exact .raise _

end StringLambda
