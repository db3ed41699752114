import StringLambda.Number.Radix
import StringLambda.Text.Printable

namespace StringLambda.Text

/-! Quoted text: double quotes where the text holds single quotes only, single quotes otherwise. -/

def hexCode (width code : Nat) : List Char :=
  let ds := digits 16 code
  List.replicate (width - ds.length) '0' ++ ds

def quotedChar (quote c : Char) : List Char :=
  if c = quote ∨ c = '\\' then ['\\', c]
  else if c = '\n' then ['\\', 'n']
  else if c = '\r' then ['\\', 'r']
  else if c = '\t' then ['\\', 't']
  else if isPrintable c then [c]
  else if c.toNat ≤ 0xff then '\\' :: 'x' :: hexCode 2 c.toNat
  else if c.toNat ≤ 0xffff then '\\' :: 'u' :: hexCode 4 c.toNat
  else '\\' :: 'U' :: hexCode 8 c.toNat

def chooseQuote (cs : List Char) : Char :=
  if cs.contains '\'' && !cs.contains '"' then '"' else '\''

def quotedChars (cs : List Char) : List Char :=
  let quote := chooseQuote cs
  quote :: (cs.flatMap (quotedChar quote) ++ [quote])

def quoted (s : String) : String :=
  String.ofList (quotedChars s.toList)

end StringLambda.Text
