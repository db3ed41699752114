import StringLambda.Position
import StringLambda.Text.Quoted

namespace StringLambda

/-! Syntax trees of expressions. -/

/-- What a leaf stands for: a variable, a member name after a point, a literal or an operator. -/
inductive LeafKind where
  | ident | name | number | string | true | false | null | undefined | op
  | other (name : String)
deriving DecidableEq

def LeafKind.text : LeafKind → String
  | .ident => "IDENT" | .name => "NAME" | .number => "NUMBER" | .string => "STRING"
  | .true => "TRUE" | .false => "FALSE" | .null => "NULL" | .undefined => "UNDEFINED"
  | .op => "OP"
  | .other s => s

def LeafKind.ofText (s : String) : LeafKind :=
  let known : List LeafKind :=
    [.ident, .name, .number, .string, .true, .false, .null, .undefined, .op]
  (known.find? (·.text == s)).getD (.other s)

inductive Label where
  | ternary | nullish | or | and | compare | add | mul | pow | unary
  | chain | field | method | index | call | args
  | array | arrow | paramlist
  | other (name : String)
deriving DecidableEq

def Label.text : Label → String
  | .ternary => "ternary" | .nullish => "nullish" | .or => "or" | .and => "and"
  | .compare => "compare" | .add => "add" | .mul => "mul" | .pow => "pow" | .unary => "unary"
  | .chain => "chain" | .field => "field" | .method => "method" | .index => "index"
  | .call => "call" | .args => "args" | .array => "array" | .arrow => "arrow"
  | .paramlist => "paramlist"
  | .other s => s

def Label.ofText (s : String) : Label :=
  let known : List Label :=
    [.ternary, .nullish, .or, .and, .compare, .add, .mul, .pow, .unary, .chain, .field, .method,
      .index, .call, .args, .array, .arrow, .paramlist]
  (known.find? (·.text == s)).getD (.other s)

/-- Nodes that have a value of their own, as against the parts of other nodes. -/
def Label.isExpression : Label → Bool
  | .field | .method | .index | .call | .args | .paramlist | .other _ => false
  | _ => true

/-- A node may carry the place of its leading token; leaves carry none. -/
inductive Tree where
  | leaf (kind : LeafKind) (text : String)
  | node (label : Label) (place : Option Position) (children : List Tree)

namespace Tree

def place? : Tree → Option Position
  | leaf _ _ => none
  | node _ place _ => place

def children : Tree → List Tree
  | leaf _ _ => []
  | node _ _ children => children

mutual

/-- The variables of a tree in source order; a nested lambda keeps its own. -/
def freeNames : Tree → List String
  | leaf .ident text => [text]
  | leaf _ _ => []
  | node .arrow _ _ => []
  | node _ _ children => freeNamesOf children

def freeNamesOf : List Tree → List String
  | [] => []
  | t :: ts => t.freeNames ++ freeNamesOf ts

end

theorem freeNames_node {label : Label} (h : label ≠ .arrow) (place : Option Position)
    (cs : List Tree) : (node label place cs).freeNames = freeNamesOf cs := by
  cases label <;> first | rfl | exact absurd rfl h

theorem freeNames_leaf {kind : LeafKind} (h : kind ≠ .ident) (text : String) :
    (leaf kind text).freeNames = [] := by
  cases kind <;> first | rfl | exact absurd rfl h

mutual

/-- One line that names every part of a tree but the places. -/
def describe : Tree → String
  | leaf kind text => "Token(" ++ Text.quoted kind.text ++ ", " ++ Text.quoted text ++ ")"
  | node label _ children =>
    "Tree(" ++ Text.quoted label.text ++ ", [" ++ describeAll children ++ "])"

def describeAll : List Tree → String
  | [] => ""
  | [t] => t.describe
  | t :: ts => t.describe ++ ", " ++ describeAll ts

end

/-- The text of a leaf as it was written, and the description of a node. -/
def written : Tree → String
  | leaf _ text => text
  | t => t.describe

def indent (level : Nat) : String :=
  String.ofList (List.replicate (2 * level) ' ')

mutual

/-- A line for each part, two spaces deeper at each level; an only child that is a leaf stays on the
line of its parent. -/
def outlineAt (level : Nat) : Tree → String
  | leaf _ text => indent level ++ text ++ "\n"
  | node label _ [leaf _ text] => indent level ++ label.text ++ "\t" ++ text ++ "\n"
  | node label _ children =>
    indent level ++ label.text ++ "\n" ++ outlinesAt (level + 1) children

def outlinesAt (level : Nat) : List Tree → String
  | [] => ""
  | t :: ts => outlineAt level t ++ outlinesAt level ts

end

/-- The outline of a tree; a lone leaf is a line with its kind and its quoted text. -/
def outline : Tree → String
  | leaf kind text => kind.text ++ "\t" ++ Text.quoted text ++ "\n"
  | t => t.outlineAt 0

end Tree

end StringLambda
