import StringLambda.Slice
import StringLambda.Text.Search
import StringLambda.Token.Lexer

namespace StringLambda

/-! Highlighting of lines by the tokens in them. -/

/-- What a piece of a line is, as far as its looks go. -/
inductive Highlight where
  | plain | keyword | boolean | constant | number | string | placeholder | arrow | command
deriving DecidableEq

namespace Highlight

def style : Highlight → String
  | .plain => ""
  | .keyword => "bold ansicyan"
  | .boolean | .constant => "ansicyan"
  | .number => "ansimagenta"
  | .string => "ansigreen"
  | .placeholder => "bold ansiyellow"
  | .arrow | .command => "bold ansiblue"

def operatorWords : List String := ["and", "or", "not"]

def ofToken (t : Token) : Highlight :=
  match t.kind with
  | .ident => if t.text == "_" then .placeholder else .plain
  | .and | .or | .not => if operatorWords.contains t.text then .keyword else .plain
  | .in => .keyword
  | .true | .false => .boolean
  | .null | .undefined => .constant
  | .number => .number
  | .string => .string
  | .arrow => .arrow
  | _ => .plain

end Highlight

structure Fragment where
  highlight : Highlight
  text : List Char

namespace Fragment

/-- Text without a style of its own; no text makes no fragment. -/
def unstyled (cs : List Char) : List Fragment :=
  if cs.isEmpty then [] else [⟨.plain, cs⟩]

/-- The fragments of a text: each token at its next occurrence, and what lies between the tokens. -/
def ofTokens (body : List Char) : List Token → List Fragment
  | [] => unstyled body
  | t :: ts =>
    let cs := t.text.toList
    if t.kind = .eof ∨ cs.isEmpty then ofTokens body ts
    else
      match Text.firstOccurrence? cs body with
      | none => ofTokens body ts
      | some i =>
        unstyled (body.take i) ++ ⟨.ofToken t, cs⟩ :: ofTokens (body.drop (i + cs.length)) ts

/-- The fragments of a text that is a source; a text without tokens is one plain fragment. -/
def ofSource (body : List Char) : List Fragment :=
  match tokenize (String.ofList body) with
  | .ok ts => ofTokens body ts
  | .error _ => [⟨.plain, body⟩]

/-- The fragments of a line. The name of a command ends at the first space. -/
def ofLine (line : List Char) : List Fragment :=
  if line.head? = some '/' then
    let name := line.takeWhile (· != ' ')
    let rest := line.drop name.length
    ⟨.command, name⟩ :: unstyled (rest.take 1)
      ++ (if (rest.drop 1).isEmpty then [] else ofSource (rest.drop 1))
  else if line.isEmpty then [⟨.plain, []⟩]
  else ofSource line

end Fragment

def textLines (s : String) : List (List Char) :=
  Text.split ['\n'] s.toList

/-- The fragments of a line of a text by its number. A negative number counts from the end; behind
the last line there is an empty one, and before the first there is none. -/
def highlightLine? (s : String) (number : Int) : Option (List Fragment) :=
  let lines := textLines s
  if lines.length ≤ number then some (Fragment.ofLine [])
  else (positionIndex? lines.length number).map fun i => Fragment.ofLine (lines.getD i [])

end StringLambda
