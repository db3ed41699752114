import StringLambda.Number.Basic
import StringLambda.Text.Blank
import StringLambda.Text.Digit

namespace StringLambda.Number

open Text

/-! Numbers read from text: whole numerals in a radix, decimal numerals, and the longest numeral at
the start of a text. -/

/-- The blanks around a numeral: the plain ones, and those outside of the first 128 characters. -/
def isOuterBlank (c : Char) : Bool :=
  if c.toNat < 128 then c == ' ' || (9 ≤ c.toNat && c.toNat ≤ 13) else isBlank c

def plainNumeral (cs : List Char) : List Char :=
  let front := cs.dropWhile isOuterBlank
  ((front.reverse.dropWhile isOuterBlank).reverse).map plainDigit

/-- Takes a sign off the front; true stands for minus. -/
def takeSign : List Char → Bool × List Char
  | '-' :: cs => (true, cs)
  | '+' :: cs => (false, cs)
  | cs => (false, cs)

def groupedDigits? (radix : Nat) : List Char → Option (List Nat)
  | [] => none
  | c :: cs =>
    match digitValue? c with
    | none => none
    | some d =>
      if radix ≤ d then none
      else match cs with
        | [] => some [d]
        | '_' :: rest => (groupedDigits? radix rest).map (d :: ·)
        | cs => (groupedDigits? radix cs).map (d :: ·)

def radixLetter? : Char → Option Nat
  | 'x' | 'X' => some 16
  | 'o' | 'O' => some 8
  | 'b' | 'B' => some 2
  | _ => none

/-- A radix mark such as `0x` in front of digits, which one underscore may follow. -/
def afterMark : List Char → List Char
  | '_' :: cs => cs
  | cs => cs

/-- The radix and the digits of an unsigned numeral. Radix zero takes the radix from the numeral,
where a leading zero without a mark is for zero alone. -/
def unsignedDigits? (radix : Nat) (cs : List Char) : Option (Nat × List Nat) :=
  let marked := match cs with
    | '0' :: letter :: rest => (radixLetter? letter).map (·, afterMark rest)
    | _ => none
  let plain := (groupedDigits? (if radix = 0 then 10 else radix) cs).map
    (if radix = 0 then 10 else radix, ·)
  match marked with
  | some (markRadix, rest) =>
    if radix = 0 ∨ radix = markRadix then (groupedDigits? markRadix rest).map (markRadix, ·)
    else plain
  | none =>
    if radix = 0 ∧ cs.head? = some '0' then plain.filter fun (_, ds) => ds.all (· == 0)
    else plain

/-- A radix is a number from 2 to 36, or zero where numerals tell their own. -/
def isRadix (radix : Int) : Bool :=
  radix = 0 ∨ (2 ≤ radix ∧ radix ≤ 36)

/-- The whole number that a text denotes in a radix. A numeral of too many digits denotes none. -/
def readInt? (radix : Int) (cs : List Char) : Option Int :=
  if isRadix radix then
    let (negative, body) := takeSign (plainNumeral cs)
    (unsignedDigits? radix.toNat body).bind fun (r, ds) =>
      let n : Int := digitsValue r 0 ds
      if isReadable r ds.length then some (if negative then -n else n) else none
  else none

/-- Underscores may stand between digits only. -/
def dropUnderscores? (previous : Char) : List Char → Option (List Char)
  | [] => if previous = '_' then none else some []
  | '_' :: cs => if previous.isDigit then dropUnderscores? '_' cs else none
  | c :: cs =>
    if previous = '_' ∧ !c.isDigit then none else (dropUnderscores? c cs).map (c :: ·)

def readExponent? : List Char → Option Int
  | [] => some 0
  | c :: cs =>
    if c = 'e' ∨ c = 'E' then
      let (negative, ds) := takeSign cs
      if ds.isEmpty || !ds.all Char.isDigit then none
      else
        let n : Int := digitsValue 10 0 (ds.filterMap digitValue?)
        some (if negative then -n else n)
    else none

/-- The float nearest to `digits * 10 ^ exponent`; far beyond the format it is infinite or zero. -/
def scaled (negative : Bool) (ds : List Char) (exponent : Int) : Float :=
  let ds := ds.dropWhile (· == '0')
  let size := (ds.length : Int) + exponent
  if ds.isEmpty || size < -400 then Float64.ofRatio negative 0 1
  else if 400 < size then Float64.ofRatio negative (Nat.pow 2 1024) 1
  else
    let n := digitsValue 10 0 (ds.filterMap digitValue?)
    Float64.ofRatio negative (n * Nat.pow 10 exponent.toNat) (Nat.pow 10 (-exponent).toNat)

def readUnsigned? (negative : Bool) (cs : List Char) : Option Float :=
  let whole := cs.takeWhile Char.isDigit
  let afterWhole := cs.dropWhile Char.isDigit
  let (places, rest) := match afterWhole with
    | '.' :: rest => (rest.takeWhile Char.isDigit, rest.dropWhile Char.isDigit)
    | rest => ([], rest)
  if whole.isEmpty && places.isEmpty then none
  else (readExponent? rest).map fun e => scaled negative (whole ++ places) (e - places.length)

/-- The names of infinity and NaN, in any case. -/
def readNamed? (negative : Bool) (cs : List Char) : Option Float :=
  let name := String.ofList (cs.map Char.toLower)
  if name = "inf" ∨ name = "infinity" then
    some (if negative then -Float64.infinity else Float64.infinity)
  else if name = "nan" then some Float64.nan
  else none

/-- The float that a decimal numeral denotes, the nearest one where the format has no exact one. -/
def readFloat? (cs : List Char) : Option Float :=
  (dropUnderscores? '.' (plainNumeral cs)).bind fun cs =>
    let (negative, body) := takeSign cs
    (readUnsigned? negative body).orElse fun _ => readNamed? negative body

/-- A numeral with a point or an exponent is a float, any other a whole number. -/
def read? (cs : List Char) : Option Number :=
  if cs.any fun c => c == '.' || c == 'e' || c == 'E' then (readFloat? cs).map .float
  else (readInt? 10 cs).map .int

def isDigitOf (radix : Nat) (c : Char) : Bool :=
  (digitValue? c).any (· < radix)

/-- The part at the start of a list in which an unsigned numeral lies: a mark of the radix and
digits. For radix zero the mark tells the radix, and only zeros follow a leading zero without a
mark. -/
def digitStart (radix : Nat) (cs : List Char) : List Char :=
  let plain := if radix ≠ 0 then radix else if cs.head? = some '0' then 1 else 10
  match cs with
  | '0' :: letter :: rest =>
    match radixLetter? letter with
    | some markRadix =>
      if radix = 0 ∨ radix = markRadix then '0' :: letter :: rest.takeWhile (isDigitOf markRadix)
      else cs.takeWhile (isDigitOf plain)
    | none => cs.takeWhile (isDigitOf plain)
  | cs => cs.takeWhile (isDigitOf plain)

/-- The part at the start of a text in which a numeral lies, with a sign, after blanks. -/
def wholeStart (radix : Nat) (cs : List Char) : List Char :=
  let cs := cs.dropWhile isBlank
  let sign := cs.take (if cs.head? = some '-' ∨ cs.head? = some '+' then 1 else 0)
  let body := digitStart radix (cs.drop sign.length)
  if body.isEmpty then [] else sign ++ body

/-- The value of the longest part at the start of a list that denotes a whole number. -/
def longestInt? (radix : Int) (cs : List Char) : Nat → Option Int
  | 0 => none
  | n + 1 =>
    match readInt? radix (cs.take (n + 1)) with
    | some i => some i
    | none => longestInt? radix cs n

def leadingInt? (radix : Int) (cs : List Char) : Option Int :=
  if isRadix radix then
    let start := wholeStart radix.toNat cs
    longestInt? radix start start.length
  else none

/-- The exponent at the start of a list, if a whole one is there. -/
def exponentStart : List Char → List Char
  | [] => []
  | c :: cs =>
    if c = 'e' ∨ c = 'E' then
      let sign := cs.take (if cs.head? = some '-' ∨ cs.head? = some '+' then 1 else 0)
      let ds := (cs.drop sign.length).takeWhile isDecimal
      if ds.isEmpty then [] else c :: (sign ++ ds)
    else []

/-- The longest decimal numeral at the start of a text, after blanks. -/
def decimalStart (cs : List Char) : List Char :=
  let cs := cs.dropWhile isBlank
  let sign := cs.take (if cs.head? = some '-' ∨ cs.head? = some '+' then 1 else 0)
  let body := cs.drop sign.length
  let whole := body.takeWhile isDecimal
  let afterWhole := body.dropWhile isDecimal
  let point := match afterWhole with
    | '.' :: rest => '.' :: rest.takeWhile isDecimal
    | _ => []
  if whole.isEmpty && point.length < 2 then []
  else sign ++ whole ++ point ++ exponentStart (afterWhole.drop point.length)

def leadingFloat? (cs : List Char) : Option Float :=
  let start := decimalStart cs
  if start.isEmpty then none else readFloat? start

end StringLambda.Number
