import StringLambda.Builtin
import StringLambda.Library.Argument
import StringLambda.Slice
import StringLambda.Text.Blank
import StringLambda.Text.Case
import StringLambda.Text.Digit
import StringLambda.Text.Search

namespace StringLambda

/-! The methods that texts have by themselves. -/

namespace Text

/-- The part of a text between two positions and where it starts. A start behind the end leaves no
part, not even an empty one. -/
def window? (start stop : Option Int) (cs : List Char) : Option (Nat × List Char) :=
  let stop := (stop.map (clipPosition cs.length)).getD cs.length
  let first := match start with
    | some i => if i < 0 then (i + cs.length).toNat else i.toNat
    | none => 0
  if first ≤ stop then some (first, (cs.take stop).drop first) else none

def stripChars (set cs : List Char) : List Char :=
  let front := cs.dropWhile set.contains
  (front.reverse.dropWhile set.contains).reverse

def fillZeros (width : Nat) (cs : List Char) : List Char :=
  let zeros := List.replicate (width - cs.length) '0'
  match cs with
  | '-' :: ds => '-' :: (zeros ++ ds)
  | '+' :: ds => '+' :: (zeros ++ ds)
  | cs => zeros ++ cs

def isDigits (cs : List Char) : Bool :=
  !cs.isEmpty && cs.all isDigit

end Text

namespace TextMethod

def windowOf (cs : List Char) (args : List Value) (i : Nat) : Act (Option (Nat × List Char)) := do
  let start ← (argument args i .null).asBound
  let stop ← (argument args (i + 1) .null).asBound
  return Text.window? start stop cs

def findPlace (s : String) (needle : Value) (bounds : List Value) : Act (Option Nat) := do
  let window ← windowOf s.toList bounds 0
  let needle ← needle.asString
  return window.bind fun (start, part) =>
    (Text.firstOccurrence? needle.toList part).map (· + start)

def count (s : String) (needle : Value) (bounds : List Value) : Act Value := do
  let window ← windowOf s.toList bounds 0
  let needle ← needle.asString
  return .ofNat ((window.map fun (_, part) => Text.countOccurrences needle.toList part).getD 0)

/-- The first of several affixes that fits, each of which has to be a text. -/
def anyAffix (fits : String → Bool) : List Value → Act Bool
  | [] => pure false
  | v :: vs => do if fits (← v.asString) then return true else anyAffix fits vs

/-- Whether the text, between bounds, has an affix, or one of the affixes in a tuple. -/
def hasAffix (test : List Char → List Char → Bool) (s : String) (affix : Value)
    (bounds : List Value) : Act Value := do
  let window ← windowOf s.toList bounds 0
  let fits (t : String) : Bool := (window.map fun (_, part) => test t.toList part).getD false
  match affix with
  | .tuple r => return .bool (← anyAffix fits ((← Act.heap).items r))
  | v => return .bool (fits (← v.asString))

def strip (s : String) (set : Value) : Act Value :=
  match set with
  | .null => pure (.text (Text.trim s))
  | v => return .text (String.ofList (Text.stripChars (← v.asString).toList s.toList))

def fillZeros (s : String) (width : Value) : Act Value := do
  let width ← width.asSize
  let heap ← Act.heap
  if s.length < width ∧ heap.capacity < textBytes s.toList width.toNat then Act.defect .tooLong
  else return .text (String.ofList (Text.fillZeros width.toNat s.toList))

def join (separator : String) (parts : Value) : Act Value := do
  return .text (Text.join separator (← (← parts.iterate).mapM Value.asString))

def apply (method : Method) (s : String) (args : List Value) : Act Value := do
  match method, args with
  | .upper, [] => return .text (Text.upper s)
  | .lower, [] => return .text (Text.lower s)
  | .title, [] => return .text (Text.title s)
  | .isdigit, [] => return .bool (Text.isDigits s.toList)
  | .strip, [] => strip s .null
  | .strip, [set] => strip s set
  | .zfill, [width] => fillZeros s width
  | .join, [parts] => join s parts
  | _, first :: bounds =>
    if 2 < bounds.length then Act.defect .wrongKind
    else
      match method with
      | .find =>
        match ← findPlace s first bounds with
        | some i => return .ofNat i
        | none => return .ofInt (-1)
      | .index =>
        match ← findPlace s first bounds with
        | some i => return .ofNat i
        | none => Act.defect .wrongValue
      | .count => count s first bounds
      | .startswith => hasAffix Text.startsWith s first bounds
      | .endswith => hasAffix Text.endsWith s first bounds
      | _ => Act.defect .wrongKind
  | _, [] => Act.defect .wrongKind

end TextMethod

end StringLambda
