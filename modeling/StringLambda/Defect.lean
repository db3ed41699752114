namespace StringLambda

/-! A failure of a built-in operation that has no account of its own. -/

/-- The kinds of failure of the built-in operations on values. -/
inductive Defect where
  /-- An operand or argument of a kind the operation does not take, or a wrong argument count. -/
  | wrongKind
  /-- An operand of the right kind outside the domain of the operation. -/
  | wrongValue
  /-- A result or an integer too large for the number format. -/
  | overflow
  /-- Zero raised to a negative power. -/
  | zeroDivision
  /-- A key that is not in the dictionary. -/
  | missingKey
  /-- A position outside the sequence. -/
  | missingIndex
  /-- A part that a tree node does not have. -/
  | missingPart
  /-- A container that contains itself where the operation needs a finite one. -/
  | endlessNesting
  /-- A text too long to be held. -/
  | tooLong
deriving DecidableEq

end StringLambda
