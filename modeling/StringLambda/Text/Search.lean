namespace StringLambda.Text

/-! Occurrences of one text in another, over lists of characters. -/

def firstOccurrence? (needle : List Char) : List Char → Option Nat
  | [] => if needle.isEmpty then some 0 else none
  | c :: cs =>
    if needle.isPrefixOf (c :: cs) then some 0
    else (firstOccurrence? needle cs).map (· + 1)

/-- The place of the first occurrence that does not start before `start`. -/
def firstOccurrenceFrom? (needle : List Char) (start : Nat) (text : List Char) : Option Nat :=
  if text.length < start then none
  else (firstOccurrence? needle (text.drop start)).map (· + start)

def occurs (needle text : List Char) : Bool :=
  (firstOccurrence? needle text).isSome

/-- The parts between the occurrences of a separator, found from left to right without overlap;
`skip` is the number of characters left of an occurrence that has been found. -/
def splitFrom (separator : List Char) (skip : Nat) : List Char → List (List Char)
  | [] => [[]]
  | c :: cs =>
    match skip with
    | skip + 1 => splitFrom separator skip cs
    | 0 =>
      if separator.isPrefixOf (c :: cs) then [] :: splitFrom separator (separator.length - 1) cs
      else (splitFrom separator 0 cs).modifyHead (c :: ·)

def split (separator text : List Char) : List (List Char) :=
  if separator.isEmpty then text.map ([·]) else splitFrom separator 0 text

/-- The number of occurrences that do not overlap; the empty text occurs around every character. -/
def countOccurrences (needle text : List Char) : Nat :=
  if needle.isEmpty then text.length + 1 else (splitFrom needle 0 text).length - 1

/-- The text with its first occurrence of `old` replaced. -/
def replaceFirst (old new text : List Char) : List Char :=
  match firstOccurrence? old text with
  | none => text
  | some i => text.take i ++ new ++ text.drop (i + old.length)

def startsWith (start text : List Char) : Bool :=
  start.isPrefixOf text

def endsWith (ending text : List Char) : Bool :=
  ending.isSuffixOf text

def join (separator : String) (parts : List String) : String :=
  separator.intercalate parts

end StringLambda.Text
