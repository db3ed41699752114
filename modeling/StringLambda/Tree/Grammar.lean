import StringLambda.Tree.Parser

namespace StringLambda

open StringLambda.Parser

/-! The grammar of expressions, said without the descent. -/

/-- What a phrase stands for in the grammar. -/
inductive Symbol where
  | expr
  | tier (t : Parser.Tier)
  | power | unary | postfixed | primary | steps | items
deriving DecidableEq

namespace Symbol

def operandOf : Parser.Tier → Symbol
  | .nullish => .tier .or
  | .or => .tier .and
  | .and => .tier .equality
  | .equality => .tier .relation
  | .relation => .tier .sum
  | .sum => .tier .product
  | .product => .power

def mayBeEmpty : Symbol → Bool
  | .steps | .items => true
  | _ => false

theorem mayBeEmpty_operandOf (t : Parser.Tier) : (operandOf t).mayBeEmpty = false := by
  cases t <;> rfl

end Symbol

/-- The node that an operator makes of its operands, at the place where the left one begins. The
logical operators have one spelling each and leave it out. -/
inductive Joins : Parser.Tier → Token → Position → Tree → Tree → Tree → Prop
  | nullish {op : Token} {p : Position} {l r : Tree} :
      op.kind = .nullish → Joins .nullish op p l r (.node .nullish (some p) [l, r])
  | or {op : Token} {p : Position} {l r : Tree} :
      op.kind = .or → Joins .or op p l r (.node .or (some p) [l, r])
  | and {op : Token} {p : Position} {l r : Tree} :
      op.kind = .and → Joins .and op p l r (.node .and (some p) [l, r])
  | equality {op : Token} {p : Position} {l r : Tree} :
      op.kind ∈ [.eq, .neq, .seq, .sneq] →
      Joins .equality op p l r (.node .compare (some p) [l, .leaf .op op.text, r])
  | relation {op : Token} {p : Position} {l r : Tree} :
      op.kind ∈ [.lt, .lte, .gt, .gte, .in] →
      Joins .relation op p l r (.node .compare (some p) [l, .leaf .op op.text, r])
  | sum {op : Token} {p : Position} {l r : Tree} :
      op.kind ∈ [.plus, .minus] →
      Joins .sum op p l r (.node .add (some p) [l, .leaf .op op.text, r])
  | product {op : Token} {p : Position} {l r : Tree} :
      op.kind ∈ [.star, .slash, .mod] →
      Joins .product op p l r (.node .mul (some p) [l, .leaf .op op.text, r])

theorem joins_iff {t : Parser.Tier} {op : Token} {p : Position} {l r u : Tree} :
    Joins t op p l r u ↔ t.operators op.kind = true ∧ u = t.join p l op r := by
  constructor
  · rintro (h | h | h | h | h | h | h) <;> refine ⟨?_, rfl⟩ <;> revert h <;>
      cases op.kind <;> decide
  · rintro ⟨h, rfl⟩
    cases t <;> constructor <;> revert h <;> cases op.kind <;> decide

theorem Joins.exists_join {t : Parser.Tier} {op : Token} {p : Position} {l r u : Tree}
    (h : Joins t op p l r u) (q : Position) (l' r' : Tree) : ∃ u', Joins t op q l' r' u' :=
  ⟨_, joins_iff.mpr ⟨(joins_iff.mp h).1, rfl⟩⟩

/-- The text of a sign; negation has two spellings and one name. -/
inductive Signs : Token → String → Prop
  | sign {op : Token} : op.kind ∈ [.minus, .plus] → Signs op op.text
  | negation {op : Token} : op.kind = .not → Signs op "!"

theorem signs_iff {op : Token} {text : String} :
    Signs op text ↔ isSign op.kind = true ∧ text = signText op := by
  constructor
  · rintro (h | h)
    · have hne : op.kind ≠ .not := by rintro hnot; simp [hnot] at h
      rw [signText, if_neg hne]
      refine ⟨?_, rfl⟩
      revert h
      cases op.kind <;> decide
    · rw [signText, if_pos h, h]
      exact ⟨rfl, rfl⟩
  · rintro ⟨h, rfl⟩
    rw [signText]
    split
    next hnot => exact .negation hnot
    next hnot =>
      refine .sign ?_
      revert h hnot
      cases op.kind <;> decide

inductive IsLiteral : Kind → LeafKind → Prop
  | number : IsLiteral .number .number
  | string : IsLiteral .string .string
  | true : IsLiteral .true .true
  | false : IsLiteral .false .false
  | null : IsLiteral .null .null
  | undefined : IsLiteral .undefined .undefined

theorem isLiteral_iff {k : Kind} {l : LeafKind} :
    IsLiteral k l ↔ k.isLiteral = Bool.true ∧ l = literalKind k := by
  constructor
  · rintro (_ | _) <;> exact ⟨rfl, rfl⟩
  · rintro ⟨h, rfl⟩
    cases k <;> first | constructor | cases h

/-- A name behind a point: an identifier, or any token that is spelled like one. -/
def Token.NamesMember (t : Token) : Prop :=
  t.kind = .ident ∨ Text.IsIdentifier t.text

theorem namesMember_iff {t : Token} : t.NamesMember ↔ isMemberName t = true := by
  simp [Token.NamesMember, isMemberName, Text.isIdentifier_iff]

namespace Kind

def opensOperand : Kind → Bool
  | .ident | .lpar | .lsqb => Bool.true
  | k => isSign k || k.isLiteral

theorem opensOperand_of_isSign {k : Kind} (h : isSign k = Bool.true) :
    k.opensOperand = Bool.true := by
  cases k <;> first | rfl | cases h

theorem opensOperand_of_isLiteral {k : Kind} (h : k.isLiteral = Bool.true) :
    k.opensOperand = Bool.true := by
  cases k <;> first | rfl | cases h

end Kind

def placeOf (ts : List Token) : Position :=
  (ts.headD .beyond).place

/-- The phrases of the grammar with the trees they stand for. With `attached`, arguments right after
a member name always belong to that name; without it, they may as well be a call of their own. -/
inductive Derives (attached : Bool) : Symbol → List Token → List Tree → Prop
  | unconditional {ts : List Token} {t : Tree} :
      Derives attached (.tier .nullish) ts [t] → Derives attached .expr ts [t]
  | conditional {cs ys ns : List Token} {q o : Token} {c y n : Tree} :
      Derives attached (.tier .nullish) cs [c] → q.kind = .qmark →
      Derives attached .expr ys [y] → o.kind = .colon → Derives attached .expr ns [n] →
      Derives attached .expr (cs ++ q :: (ys ++ o :: ns))
        [.node .ternary (some (placeOf cs)) [c, y, n]]
  | operand {t : Parser.Tier} {ts : List Token} {u : Tree} :
      Derives attached (.operandOf t) ts [u] → Derives attached (.tier t) ts [u]
  | joined {t : Parser.Tier} {ls rs : List Token} {op : Token} {l r u : Tree} :
      Derives attached (.tier t) ls [l] → Joins t op (placeOf ls) l r u →
      Derives attached (.operandOf t) rs [r] →
      Derives attached (.tier t) (ls ++ op :: rs) [u]
  | base {ts : List Token} {t : Tree} :
      Derives attached .unary ts [t] → Derives attached .power ts [t]
  | raised {bs es : List Token} {op : Token} {b e : Tree} :
      Derives attached .unary bs [b] → op.kind = .pow → Derives attached .power es [e] →
      Derives attached .power (bs ++ op :: es)
        [.node .pow (some (placeOf bs)) [b, .leaf .op "**", e]]
  | unsigned {ts : List Token} {t : Tree} :
      Derives attached .postfixed ts [t] → Derives attached .unary ts [t]
  | signed {op : Token} {text : String} {ts : List Token} {t : Tree} :
      Signs op text → Derives attached .unary ts [t] →
      Derives attached .unary (op :: ts) [.node .unary (some op.place) [.leaf .op text, t]]
  | bare {ts : List Token} {t : Tree} :
      Derives attached .primary ts [t] → Derives attached .postfixed ts [t]
  | chain {hs ss : List Token} {h s : Tree} {rest : List Tree} :
      Derives attached .primary hs [h] → Derives attached .steps ss (s :: rest) →
      Derives attached .postfixed (hs ++ ss)
        [.node .chain (some (placeOf hs)) (h :: s :: rest)]
  | literal {t : Token} {kind : LeafKind} :
      IsLiteral t.kind kind → Derives attached .primary [t] [.leaf kind t.text]
  | ident {t : Token} :
      t.kind = .ident → Derives attached .primary [t] [.leaf .ident t.text]
  | parenthesized {left right : Token} {ts : List Token} {t : Tree} :
      left.kind = .lpar → Derives attached .expr ts [t] → right.kind = .rpar →
      Derives attached .primary (left :: (ts ++ [right])) [t]
  | array {left right : Token} {ts : List Token} {elements : List Tree} :
      left.kind = .lsqb → Derives attached .items ts elements → right.kind = .rsqb →
      Derives attached .primary (left :: (ts ++ [right]))
        [.node .array (some left.place) elements]
  | stepsEnd : Derives attached .steps [] []
  | field {dot name : Token} {ss : List Token} {rest : List Tree} :
      dot.kind = .dot → name.NamesMember → Derives attached .steps ss rest →
      (attached = true → (current ss).kind ≠ .lpar) →
      Derives attached .steps (dot :: name :: ss)
        (.node .field (some dot.place) [.leaf .name name.text] :: rest)
  | method {dot name left right : Token} {ts ss : List Token} {args rest : List Tree} :
      dot.kind = .dot → name.NamesMember → left.kind = .lpar →
      Derives attached .items ts args → right.kind = .rpar → Derives attached .steps ss rest →
      Derives attached .steps (dot :: name :: left :: (ts ++ right :: ss))
        (.node .method (some dot.place)
          [.leaf .name name.text, .node .args (some dot.place) args] :: rest)
  | index {left right : Token} {ts ss : List Token} {i : Tree} {rest : List Tree} :
      left.kind = .lsqb → Derives attached .expr ts [i] → right.kind = .rsqb →
      Derives attached .steps ss rest →
      Derives attached .steps (left :: (ts ++ right :: ss))
        (.node .index (some left.place) [i] :: rest)
  | call {left right : Token} {ts ss : List Token} {args rest : List Tree} :
      left.kind = .lpar → Derives attached .items ts args → right.kind = .rpar →
      Derives attached .steps ss rest →
      Derives attached .steps (left :: (ts ++ right :: ss))
        (.node .call (some left.place) [.node .args (some left.place) args] :: rest)
  | itemsEnd : Derives attached .items [] []
  | lastItem {ts : List Token} {t : Tree} :
      Derives attached .expr ts [t] → Derives attached .items ts [t]
  | item {ts rs : List Token} {comma : Token} {t : Tree} {rest : List Tree} :
      Derives attached .expr ts [t] → comma.kind = .comma → Derives attached .items rs rest →
      Derives attached .items (ts ++ comma :: rs) (t :: rest)

namespace Derives

variable {attached : Bool}

theorem exists_cons {s : Symbol} {ts : List Token} {out : List Tree}
    (h : Derives attached s ts out) (hs : s.mayBeEmpty = false) :
    ∃ t rest, ts = t :: rest ∧ t.kind.opensOperand = true := by
  induction h with
  | unconditional _ ih => exact ih rfl
  | conditional _ _ _ _ _ ih _ _ =>
      obtain ⟨t, rest, rfl, ht⟩ := ih rfl
      exact ⟨t, _, rfl, ht⟩
  | @operand t _ _ _ ih => exact ih (Symbol.mayBeEmpty_operandOf t)
  | joined _ _ _ ih _ =>
      obtain ⟨t, rest, rfl, ht⟩ := ih rfl
      exact ⟨t, _, rfl, ht⟩
  | base _ ih => exact ih rfl
  | raised _ _ _ ih _ =>
      obtain ⟨t, rest, rfl, ht⟩ := ih rfl
      exact ⟨t, _, rfl, ht⟩
  | unsigned _ ih => exact ih rfl
  | @signed op _ ts _ hop _ _ =>
      exact ⟨op, ts, rfl, Kind.opensOperand_of_isSign (signs_iff.mp hop).1⟩
  | bare _ ih => exact ih rfl
  | chain _ _ ih _ =>
      obtain ⟨t, rest, rfl, ht⟩ := ih rfl
      exact ⟨t, _, rfl, ht⟩
  | @literal t _ ht =>
      exact ⟨t, [], rfl, Kind.opensOperand_of_isLiteral (isLiteral_iff.mp ht).1⟩
  | @ident t ht => exact ⟨t, [], rfl, by rw [ht]; rfl⟩
  | parenthesized hleft => exact ⟨_, _, rfl, by rw [hleft]; rfl⟩
  | array hleft => exact ⟨_, _, rfl, by rw [hleft]; rfl⟩
  | _ => cases hs

theorem ne_nil {s : Symbol} {ts : List Token} {out : List Tree} (h : Derives attached s ts out)
    (hs : s.mayBeEmpty = false) : ts ≠ [] := by
  obtain ⟨t, rest, rfl, -⟩ := h.exists_cons hs
  simp

end Derives

@[simp] theorem placeOf_cons (t : Token) (ts : List Token) : placeOf (t :: ts) = t.place := rfl

theorem placeOf_append {ls : List Token} (h : ls ≠ []) (rs : List Token) :
    placeOf (ls ++ rs) = placeOf ls := by
  cases ls with
  | nil => exact absurd rfl h
  | cons l ls => rfl

end StringLambda
