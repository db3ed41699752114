import StringLambda.Token.Lexer
import StringLambda.Tree.Parser

namespace StringLambda

/-! Lambdas written as text. A source has one of four forms, tried in this order: parameters before
an arrow, the placeholder `_`, an operator that lacks its left or right operand, and an expression
whose free names become the parameters. -/

inductive Form where
  | arrow | placeholder | section | implicit
deriving DecidableEq

def Form.name : Form → String
  | .arrow => "arrow"
  | .placeholder => "placeholder"
  | .section => "section"
  | .implicit => "implicit"

structure Lambda where
  source : String
  params : List String
  body : Tree
  form : Form

inductive SourceError where
  | lex (e : LexError)
  | parse (e : ParseError)
deriving DecidableEq

namespace SourceError

def place : SourceError → Position
  | .lex e => e.place
  | .parse e => e.place

def message (e : SourceError) : String :=
  let text := match e with
    | .lex e => e.issue.message
    | .parse e => e.issue.message
  text ++ " at line " ++ intText e.place.line ++ ", col " ++ intText e.place.column

end SourceError

def sourceTokens (source : String) : Except SourceError (List Token) :=
  (tokenize source).mapError .lex

def Tree.ofSource (source : String) : Except SourceError Tree := do
  (Tree.ofTokens (← sourceTokens source)).mapError .parse

namespace Lambda

def arity (f : Lambda) : Nat :=
  f.params.length

def describe (f : Lambda) : String :=
  "<lambda (" ++ ", ".intercalate f.params ++ ") " ++ f.form.name ++ " "
    ++ Text.quoted f.source ++ ">"

/-- The tokens up to the first arrow, and the lists between the arrows after it. -/
def cutAtArrows : List Token → List Token × List (List Token)
  | [] => ([], [])
  | t :: ts =>
    let (first, others) := cutAtArrows ts
    if t.kind = .arrow then ([], first :: others) else (t :: first, others)

/-- The parameters in front of an arrow and the body behind it. A body with a further arrow is a
nested lambda, and the last list holds the end token of the source. -/
def arrowParts (stop : Token) (front : List Token) :
    List (List Token) → Parsed (List String × Tree)
  | [] => return ([], ← Tree.ofTokens front)
  | body :: others => do
    let names ← parameters (front ++ [stop])
    if others.isEmpty then
      if (Parser.current body).kind = .eof then Parser.fail .emptyBody body
      else return (names, ← Tree.ofTokens body)
    else
      let (inner, tree) ← arrowParts stop body others
      return (names, .node .arrow none [.node .paramlist none (inner.map (.leaf .ident)), tree])

def placeholderName : String := "_"

/-- The placeholder stands somewhere as a variable; right after a point it names a member. -/
def usesPlaceholder (afterDot : Bool) : List Token → Bool
  | [] => false
  | t :: ts =>
    (t.kind == .ident && t.text == placeholderName && !afterDot)
      || usesPlaceholder (t.kind == .dot) ts

def leftName : String := "$0"

def rightName : String := "$1"

def operand (name : String) (operator : Token) : Token :=
  ⟨.ident, name, operator.place⟩

/-- The parameters of a section and its tokens with the missing operands put in. The names of the
operands are no identifiers of the language. -/
def sectionParts? (ts : List Token) : Option (List String × List Token) :=
  let body := ts.dropLast
  let stop := ts.drop (ts.length - 1)
  match body.head?, body.getLast? with
  | some first, some last =>
    match first.kind.opensSection, last.kind.closesSection with
    | false, false => none
    | true, false => some ([leftName], operand leftName first :: body ++ stop)
    | false, true => some ([leftName], body ++ operand leftName last :: stop)
    | true, true =>
      some ([leftName, rightName],
        operand leftName first :: body ++ operand rightName last :: stop)
  | _, _ => none

def distinct (seen : List String) : List String → List String
  | [] => []
  | x :: xs => if seen.contains x then distinct seen xs else x :: distinct (x :: seen) xs

theorem mem_distinct {x : String} {seen xs : List String} :
    x ∈ distinct seen xs ↔ x ∈ xs ∧ x ∉ seen := by
  induction xs generalizing seen with
  | nil => simp [distinct]
  | cons y ys ih =>
      by_cases hy : y ∈ seen
      · rw [distinct, if_pos (by simpa using hy), ih, List.mem_cons]
        refine ⟨fun h => ⟨.inr h.1, h.2⟩, ?_⟩
        rintro ⟨rfl | hx, hseen⟩
        · exact absurd hy hseen
        · exact ⟨hx, hseen⟩
      · rw [distinct, if_neg (by simpa using hy), List.mem_cons, List.mem_cons, ih]
        by_cases hxy : x = y
        · subst hxy
          simp [hy]
        · simp [hxy]

theorem nodup_distinct {seen xs : List String} : (distinct seen xs).Nodup := by
  induction xs generalizing seen with
  | nil => exact List.nodup_nil
  | cons x xs ih =>
      rw [distinct]
      split
      · exact ih
      · refine List.nodup_cons.mpr ⟨fun hmem => ?_, ih⟩
        exact (mem_distinct.mp hmem).2 (by simp)

def freeParams (bound : String → Bool) (body : Tree) : List String :=
  distinct [] (body.freeNames.filter fun name => !bound name)

theorem mem_freeParams {bound : String → Bool} {body : Tree} {x : String} :
    x ∈ freeParams bound body ↔ x ∈ body.freeNames ∧ bound x = false := by
  simp [freeParams, mem_distinct]

/-- The lambda of a token list; `bound` tells the names that an expression does not take as
parameters. -/
def ofTokens (bound : String → Bool) (source : String) (ts : List Token) : Parsed Lambda :=
  if (Parser.current ts).kind = .eof then Parser.fail .emptySource ts
  else
    let (front, others) := cutAtArrows ts
    if !others.isEmpty then do
      let (params, body) ← arrowParts (ts.getLastD .beyond) front others
      return ⟨source, params, body, .arrow⟩
    else if usesPlaceholder false ts then do
      return ⟨source, [placeholderName], ← Tree.ofTokens ts, .placeholder⟩
    else
      match sectionParts? ts with
      | some (params, tokens) => do return ⟨source, params, ← Tree.ofTokens tokens, .section⟩
      | none => do
        let body ← Tree.ofTokens ts
        return ⟨source, freeParams bound body, body, .implicit⟩

def ofSource (bound : String → Bool) (source : String) : Except SourceError Lambda := do
  (ofTokens bound source (← sourceTokens source)).mapError .parse

theorem ofSource_eq_ok_iff {bound : String → Bool} {source : String} {f : Lambda} :
    ofSource bound source = .ok f ↔
      ∃ ts, tokenize source = .ok ts ∧ ofTokens bound source ts = .ok f := by
  simp only [ofSource, sourceTokens, Parser.bind_eq_ok_iff, Parser.mapError_eq_ok_iff]

end Lambda

end StringLambda
