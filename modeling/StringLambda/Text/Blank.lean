import StringLambda.Text.Ranges

namespace StringLambda.Text

/-! Blank characters, and what trimming removes. -/

def blankBounds : Array Nat := #[
  9, 14, 28, 33, 133, 134, 160, 161, 5760, 5761, 8192, 8203, 8232, 8234, 8239, 8240, 8287, 8288,
  12288, 12289]

def isBlank (c : Char) : Bool :=
  inRanges blankBounds c.toNat

def trimStart (cs : List Char) : List Char :=
  cs.dropWhile isBlank

def trimEnd (cs : List Char) : List Char :=
  (cs.reverse.dropWhile isBlank).reverse

def trim (s : String) : String :=
  String.ofList (trimEnd (trimStart s.toList))

def splitWord (s : String) : String × Option String :=
  let cs := trimStart s.toList
  let rest := trimStart (cs.dropWhile (!isBlank ·))
  (String.ofList (cs.takeWhile (!isBlank ·)),
    if rest.isEmpty then none else some (String.ofList rest))

end StringLambda.Text
