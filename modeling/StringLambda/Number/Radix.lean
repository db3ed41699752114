namespace StringLambda

/-! Whole numbers written in a radix between 2 and 36, digits `0`-`9` and then `a`-`z`. -/

def digitChar (d : Nat) : Char :=
  if d < 10 then Char.ofNat ('0'.toNat + d) else Char.ofNat ('a'.toNat + (d - 10))

def digitValue? (c : Char) : Option Nat :=
  if '0' ≤ c ∧ c ≤ '9' then some (c.toNat - '0'.toNat)
  else if 'a' ≤ c ∧ c ≤ 'z' then some (c.toNat - 'a'.toNat + 10)
  else if 'A' ≤ c ∧ c ≤ 'Z' then some (c.toNat - 'A'.toNat + 10)
  else none

/-- The digits of `n`, the last one in front; the fuel bounds their number. -/
def reversedDigits (radix : Nat) : Nat → Nat → List Char
  | 0, _ => []
  | fuel + 1, n =>
    if n < radix then [digitChar n]
    else digitChar (n % radix) :: reversedDigits radix fuel (n / radix)

/-- The digits of `n` without leading zeros; a number has no more digits than bits. -/
def digits (radix n : Nat) : List Char :=
  (reversedDigits radix (n.log2 + 1) n).reverse

def radixText (radix : Nat) (i : Int) : String :=
  String.ofList ((if i < 0 then ['-'] else []) ++ digits radix i.natAbs)

def intText (i : Int) : String :=
  radixText 10 i

def digitLimit : Nat := 4300

/-- Whether a numeral of so many digits is read: the limit holds in all radices but the powers of
two. -/
def isReadable (radix count : Nat) : Bool :=
  count ≤ digitLimit || [2, 4, 8, 16, 32].contains radix

/-- The number that a list of digits denotes after the digits read so far. -/
def digitsValue (radix : Nat) (soFar : Nat) : List Nat → Nat
  | [] => soFar
  | d :: ds => digitsValue radix (soFar * radix + d) ds

end StringLambda
