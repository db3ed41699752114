import StringLambda.Token
import StringLambda.Tree
import StringLambda.Text.Identifier

namespace StringLambda

/-! Tokens to trees, by recursive descent. From the loosest: the conditional, seven tiers of
operators that associate to the left, powers that associate to the right, signs and negation,
members, indices and calls after an operand, and operands. -/

inductive ParseIssue where
  | emptyExpression
  | tokenAfterExpression (kind : Kind)
  | expected (kind actual : Kind)
  | expectedMember
  | unclosedArguments
  | unclosedIndex
  | unclosedParenthesis
  | unclosedArray
  | endOfExpression
  | tokenInExpression (kind : Kind)
  | expectedParameter
  | duplicateParameter (name : String)
  | malformedParameters
  | emptySource
  | emptyBody
deriving DecidableEq

def ParseIssue.message : ParseIssue → String
  | .emptyExpression => "Empty expression"
  | .tokenAfterExpression kind => "Unexpected token after expression: " ++ kind.name
  | .expected kind actual => "Expected " ++ kind.name ++ ", got " ++ actual.name
  | .expectedMember => "Expected member name after '.'"
  | .unclosedArguments => "Expected ')' after arguments"
  | .unclosedIndex => "Expected ']' after index"
  | .unclosedParenthesis => "Expected ')'"
  | .unclosedArray => "Expected ']' to close array"
  | .endOfExpression => "Unexpected end of expression"
  | .tokenInExpression kind => "Unexpected token in expression: " ++ kind.name
  | .expectedParameter => "Expected parameter name"
  | .duplicateParameter name => "Duplicate parameter '" ++ name ++ "'"
  | .malformedParameters => "Malformed parameter list"
  | .emptySource => "Empty lambda source"
  | .emptyBody => "Arrow lambda has an empty body"

structure ParseError where
  issue : ParseIssue
  place : Position
deriving DecidableEq

abbrev Parsed := Except ParseError

namespace Parser

/-! The functions of the descent return what they read and the tokens left. -/

/-- The token at the front; past the end of the list lies an end token. -/
def current (ts : List Token) : Token :=
  ts.headD .beyond

def fail {α : Type} (issue : ParseIssue) (ts : List Token) : Parsed α :=
  .error ⟨issue, (current ts).place⟩

def expect (kind : Kind) (issue : ParseIssue) (ts : List Token) :
    Parsed (List Token) :=
  if (current ts).kind = kind then .ok ts.tail else fail issue ts

theorem bind_eq_ok_iff {ε α β : Type} {x : Except ε α} {f : α → Except ε β} {b : β} :
    (x >>= f) = .ok b ↔ ∃ a, x = .ok a ∧ f a = .ok b := by
  cases x <;> simp [bind, Except.bind]

theorem mapError_eq_ok_iff {ε ε' α : Type} {f : ε → ε'} {x : Except ε α} {a : α} :
    x.mapError f = .ok a ↔ x = .ok a := by
  constructor
  · intro h
    cases x with
    | error e => cases h
    | ok b =>
        cases h
        rfl
  · rintro rfl
    rfl

@[simp] theorem current_cons (t : Token) (ts : List Token) : current (t :: ts) = t := rfl

theorem exists_cons (ts : List Token) (h : (current ts).kind ≠ .eof) :
    ∃ t rest, ts = t :: rest := by
  cases ts with
  | nil => exact absurd rfl h
  | cons t rest => exact ⟨t, rest, rfl⟩

theorem expect_eq_ok_iff {kind : Kind} {issue : ParseIssue} {ts rest : List Token} :
    expect kind issue ts = .ok rest ↔ (current ts).kind = kind ∧ rest = ts.tail := by
  by_cases h : (current ts).kind = kind <;> simp [expect, fail, h, eq_comm]

/-- The tiers of operators that associate to the left, the loosest first. -/
inductive Tier where
  | nullish | or | and | equality | relation | sum | product
deriving DecidableEq

namespace Tier

def operators : Tier → Kind → Bool
  | .nullish, .nullish => true
  | .or, .or => true
  | .and, .and => true
  | .equality, .eq | .equality, .neq | .equality, .seq | .equality, .sneq => true
  | .relation, .lt | .relation, .lte | .relation, .gt | .relation, .gte | .relation, .in => true
  | .sum, .plus | .sum, .minus => true
  | .product, .star | .product, .slash | .product, .mod => true
  | _, _ => false

@[simp] theorem operators_eof (t : Tier) : t.operators .eof = false := by
  cases t <;> rfl

/-- The next tier that binds tighter; below the last one come powers. -/
def tighter : Tier → Option Tier
  | .nullish => some .or
  | .or => some .and
  | .and => some .equality
  | .equality => some .relation
  | .relation => some .sum
  | .sum => some .product
  | .product => none

/-- The node for two operands; the logical tiers have one spelling each and drop it. -/
def join (tier : Tier) (place : Position) (left : Tree) (op : Token) (right : Tree) : Tree :=
  match tier with
  | .nullish => .node .nullish (some place) [left, right]
  | .or => .node .or (some place) [left, right]
  | .and => .node .and (some place) [left, right]
  | .equality | .relation => .node .compare (some place) [left, .leaf .op op.text, right]
  | .sum => .node .add (some place) [left, .leaf .op op.text, right]
  | .product => .node .mul (some place) [left, .leaf .op op.text, right]

end Tier

def literalKind : Kind → LeafKind
  | .number => .number
  | .string => .string
  | .true => .true
  | .false => .false
  | .null => .null
  | .undefined => .undefined
  | kind => .other kind.name

/-- After a point, any token whose text is an identifier names a member, keywords included. -/
def isMemberName (t : Token) : Bool :=
  t.kind == .ident || Text.isIdentifier t.text

def signText (op : Token) : String :=
  if op.kind = .not then "!" else op.text

def isSign (kind : Kind) : Bool :=
  kind == .minus || kind == .not || kind == .plus

mutual

def expr : Nat → List Token → Parsed (Tree × List Token)
  | 0, ts => fail .endOfExpression ts
  | n + 1, ts => do
    let (condition, rest) ← tier n .nullish ts
    if (current rest).kind = .qmark then
      let (yes, rest) ← expr n rest.tail
      let rest ← expect .colon (.expected .colon (current rest).kind) rest
      let (no, rest) ← expr n rest
      return (.node .ternary (some (current ts).place) [condition, yes, no], rest)
    else return (condition, rest)

def tier : Nat → Tier → List Token → Parsed (Tree × List Token)
  | 0, _, ts => fail .endOfExpression ts
  | n + 1, t, ts => do
    let (left, rest) ← match t.tighter with
      | some tighter => tier n tighter ts
      | none => power n ts
    tierTail n t (current ts).place left rest

def tierTail : Nat → Tier → Position → Tree → List Token → Parsed (Tree × List Token)
  | 0, _, _, _, ts => fail .endOfExpression ts
  | n + 1, t, place, left, ts =>
    if t.operators (current ts).kind then do
      let (right, rest) ← match t.tighter with
        | some tighter => tier n tighter ts.tail
        | none => power n ts.tail
      tierTail n t place (t.join place left (current ts) right) rest
    else return (left, ts)

def power : Nat → List Token → Parsed (Tree × List Token)
  | 0, ts => fail .endOfExpression ts
  | n + 1, ts => do
    let (base, rest) ← unary n ts
    if (current rest).kind = .pow then
      let (exponent, rest) ← power n rest.tail
      return (.node .pow (some (current ts).place) [base, .leaf .op "**", exponent], rest)
    else return (base, rest)

def unary : Nat → List Token → Parsed (Tree × List Token)
  | 0, ts => fail .endOfExpression ts
  | n + 1, ts =>
    if isSign (current ts).kind then do
      let (operand, rest) ← unary n ts.tail
      return (.node .unary (some (current ts).place)
        [.leaf .op (signText (current ts)), operand], rest)
    else postfixed n ts

/-- An operand and the steps after it, which make a chain of the two. -/
def postfixed : Nat → List Token → Parsed (Tree × List Token)
  | 0, ts => fail .endOfExpression ts
  | n + 1, ts => do
    let (head, rest) ← primary n ts
    let (steps, rest) ← stepsAfter n rest
    if steps.isEmpty then return (head, rest)
    else return (.node .chain (some (current ts).place) (head :: steps), rest)

def stepsAfter : Nat → List Token → Parsed (List Tree × List Token)
  | 0, ts => fail .endOfExpression ts
  | n + 1, ts =>
    let place := some (current ts).place
    match (current ts).kind with
    | .dot => do
      let member := current ts.tail
      if !isMemberName member then fail .expectedMember ts.tail
      else
        let name := Tree.leaf .name member.text
        let rest := ts.tail.tail
        if (current rest).kind = .lpar then
          let (args, rest) ← items n .rpar rest.tail
          let rest ← expect .rpar .unclosedArguments rest
          let (steps, rest) ← stepsAfter n rest
          return (.node .method place [name, .node .args place args] :: steps, rest)
        else
          let (steps, rest) ← stepsAfter n rest
          return (.node .field place [name] :: steps, rest)
    | .lsqb => do
      let (index, rest) ← expr n ts.tail
      let rest ← expect .rsqb .unclosedIndex rest
      let (steps, rest) ← stepsAfter n rest
      return (.node .index place [index] :: steps, rest)
    | .lpar => do
      let (args, rest) ← items n .rpar ts.tail
      let rest ← expect .rpar .unclosedArguments rest
      let (steps, rest) ← stepsAfter n rest
      return (.node .call place [.node .args place args] :: steps, rest)
    | _ => return ([], ts)

def primary : Nat → List Token → Parsed (Tree × List Token)
  | 0, ts => fail .endOfExpression ts
  | n + 1, ts =>
    let t := current ts
    if t.kind.isLiteral then return (.leaf (literalKind t.kind) t.text, ts.tail)
    else match t.kind with
    | .ident => return (.leaf .ident t.text, ts.tail)
    | .lpar => do
      let (inner, rest) ← expr n ts.tail
      let rest ← expect .rpar .unclosedParenthesis rest
      return (inner, rest)
    | .lsqb => do
      let (elements, rest) ← items n .rsqb ts.tail
      let rest ← expect .rsqb .unclosedArray rest
      return (.node .array (some t.place) elements, rest)
    | .eof => fail .endOfExpression ts
    | kind => fail (.tokenInExpression kind) ts

/-- Expressions between commas up to a closing token; the last comma may end the list. -/
def items : Nat → Kind → List Token → Parsed (List Tree × List Token)
  | 0, _, ts => fail .endOfExpression ts
  | n + 1, close, ts =>
    if (current ts).kind = close ∨ (current ts).kind = .eof then return ([], ts)
    else do
      let (first, rest) ← expr n ts
      if (current rest).kind = .comma then
        let (others, rest) ← items n close rest.tail
        return (first :: others, rest)
      else return ([first], rest)

end

def operand (n : Nat) (t : Tier) (ts : List Token) : Parsed (Tree × List Token) :=
  match t.tighter with
  | some tighter => tier n tighter ts
  | none => power n ts

theorem tier_succ (n : Nat) (t : Tier) (ts : List Token) :
    tier (n + 1) t ts =
      operand n t ts >>= fun p => tierTail n t (current ts).place p.1 p.2 := by
  cases t <;> rfl

theorem tierTail_succ (n : Nat) (t : Tier) (place : Position) (left : Tree) (ts : List Token) :
    tierTail (n + 1) t place left ts =
      if t.operators (current ts).kind then
        operand n t ts.tail >>= fun p =>
          tierTail n t place (t.join place left (current ts) p.1) p.2
      else .ok (left, ts) := by
  cases t <;> rfl

/-- A bound on the depth of the descent: fewer than sixteen levels lie between two tokens. -/
def depthBound (ts : List Token) : Nat :=
  16 * (ts.length + 1)

end Parser

open StringLambda.Parser

/-- The tree of a token list that holds exactly one expression before its end token. -/
def Tree.ofTokens (ts : List Token) : Parsed Tree :=
  if (current ts).kind = .eof then fail .emptyExpression ts
  else do
    let (tree, rest) ← expr (depthBound ts) ts
    if (current rest).kind = .eof then return tree
    else fail (.tokenAfterExpression (current rest).kind) rest

/-- The names of a parameter list, after those of `seen`. -/
def parameterNames (seen : List String) : List Token → Parsed (List String)
  | [] => .ok []
  | t :: ts =>
    if t.kind = .eof then .ok []
    else if t.kind ≠ .ident then .error ⟨.expectedParameter, t.place⟩
    else if seen.contains t.text then .error ⟨.duplicateParameter t.text, t.place⟩
    else
      match ts with
      | [] => .ok [t.text]
      | next :: rest =>
        if next.kind = .comma then (parameterNames (t.text :: seen) rest).map (t.text :: ·)
        else if next.kind = .eof then .ok [t.text]
        else .error ⟨.malformedParameters, next.place⟩

/-- The parameters of a token list: distinct names between commas, up to the end token. -/
def parameters (ts : List Token) : Parsed (List String) :=
  parameterNames [] ts

end StringLambda
