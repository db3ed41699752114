import StringLambda.Builtin
import StringLambda.Heap.Display
import StringLambda.Library.Argument
import StringLambda.Slice
import StringLambda.Text.Blank
import StringLambda.Text.Case
import StringLambda.Text.Search

namespace StringLambda

/-! The members of texts. Positions count characters. -/

namespace Text

/-- The character at a position; outside of the text there is none. -/
def charAt (i : Int) (text : List Char) : List Char :=
  if i < 0 then [] else (text.drop i.toNat).take 1

def indexOf (needle : List Char) (start : Int) (text : List Char) : Int :=
  match firstOccurrenceFrom? needle start.toNat text with
  | some i => i
  | none => -1

def limited {α : Type} (limit : Option Int) (parts : List α) : List α :=
  match limit with
  | some k => parts.take k.toNat
  | none => parts

def repeated (count : Nat) (s : String) : String :=
  count.repeat (· ++ s) ""

end Text

namespace TextMember

/-- The parts of a text between separators; without a separator the text is one part. -/
def splitParts (s : String) (separator : Value) : Act (List (List Char)) :=
  match separator with
  | .null => pure [s.toList]
  | v => return Text.split (← v.asText "split").toList s.toList

/-- How often a text may be repeated: a number from zero on, and not infinite. -/
def repeatCount (count : Value) : Act Nat := do
  if let .number (.float x) := count then
    if x.isInf then Act.raise .infiniteRepeat
  let n ← count.asCount "repeat"
  if n < 0 then Act.raise .negativeRepeat
  if Number.countLimit < n then Act.defect .overflow
  return n.toNat

/-- A text written a number of times. A length that cannot be counted is told from one that is too
long to be held. -/
def repeatText (s : String) (count : Value) : Act Value := do
  let n ← repeatCount count
  if Number.countLimit < s.length * n then Act.defect .overflow
  else if (← Act.heap).capacity < textBytes s.toList (s.length * n) then Act.defect .tooLong
  else if s.isEmpty then return .text s
  else return .text (Text.repeated n s)

def concatTexts (h : Heap) : List Value → Except Defect String
  | [] => .ok ""
  | v :: vs => do return (← h.text v) ++ (← concatTexts h vs)

def apply (member : TextMember) (s : String) (args : List Value) : Act Value := do
  let first := argument args 0 .null
  match member with
  | .length => return .ofNat s.length
  | .toUpperCase => return .text (Text.upper s)
  | .toLowerCase => return .text (Text.lower s)
  | .trim => return .text (Text.trim s)
  | .toString => return .text s
  | .charAt =>
    let i ← (argument args 0 (.ofInt 0)).asCount "charAt"
    return .text (String.ofList (Text.charAt i s.toList))
  | .indexOf =>
    let needle ← first.asText "indexOf"
    let start ← (argument args 1 (.ofInt 0)).asCount "indexOf"
    return .ofInt (Text.indexOf needle.toList start s.toList)
  | .includes => return .bool (Text.occurs (← first.asText "includes").toList s.toList)
  | .startsWith => return .bool (Text.startsWith (← first.asText "startsWith").toList s.toList)
  | .endsWith => return .bool (Text.endsWith (← first.asText "endsWith").toList s.toList)
  | .split =>
    let parts ← splitParts s first
    let limit ← (argument args 1 .null).asCount? "split"
    Act.newList ((Text.limited limit parts).map fun part => .text (String.ofList part))
  | .slice =>
    let start ← (argument args 0 (.ofInt 0)).asCount "slice"
    let stop ← (argument args 1 .null).asCount? "slice"
    return .text (String.ofList (StringLambda.slice start stop s.toList))
  | .concat => return .text (s ++ (← Act.ofDefect (concatTexts (← Act.heap) args)))
  | .repeated => repeatText s first
  | .replace =>
    let old ← first.asText "replace"
    let new ← Act.ofDefect ((← Act.heap).text (argument args 1 .null))
    return .text (String.ofList (Text.replaceFirst old.toList new.toList s.toList))

end TextMember

end StringLambda
