import StringLambda.Builtin
import StringLambda.Library.Argument

namespace StringLambda

/-! The members of numbers. -/

def Number.fixedText (n : Number) (digits : Value) : Act Value := do
  let places ← digits.asCount "toFixed"
  if places < 0 ∨ 100 < places then Act.raise .fixedDigits
  else return .text (← Act.ofDefect (n.fixed places.toNat))

/-- An integer in the digits of a radix, which is one from 2 to 36. -/
def radixValue (radix : Int) (i : Int) : Act Value :=
  if 2 ≤ radix ∧ radix ≤ 36 then pure (.text (radixText radix.toNat i)) else Act.raise .radixRange

/-- The text of a number. Integers alone are written in another radix than ten. -/
def Value.numberText (v : Value) (radix : Value) : Act Value := do
  let radix ← radix.asCount "toString"
  match v with
  | .number (.int i) =>
    if radix = 10 then return .text (← Act.ofDefect (Number.decimalText i)) else radixValue radix i
  | .number n => return .text (← Act.ofDefect n.plainText)
  | .bool b => return .text (if b then "true" else "false")
  | _ => Act.defect .wrongKind

def NumberMember.apply (member : NumberMember) (receiver : Value) (args : List Value) : Act Value :=
  match member, receiver.numeric? with
  | .toFixed, some n => n.fixedText (argument args 0 (.ofInt 0))
  | .toString, some _ => receiver.numberText (argument args 0 (.ofInt 10))
  | _, none => Act.defect .wrongKind

end StringLambda
