import StringLambda.Act

namespace StringLambda

/-! Reading the arguments of library functions. -/

namespace Value

def asCount (method : String) (v : Value) : Act Int :=
  match v.number? with
  | some n => pure n.toCount
  | none => Act.raise (.numericArgument method)

def asCount? (method : String) (v : Value) : Act (Option Int) :=
  match v with
  | .null => pure none
  | v => return some (← v.asCount method)

def asText (method : String) (v : Value) : Act String :=
  match v with
  | .text s => pure s
  | _ => Act.raise (.stringArgument method)

def asInteger (v : Value) : Act Int :=
  match v.integer? with
  | some i => pure i
  | none => Act.defect .wrongKind

def asSize (v : Value) : Act Int := do
  let i ← v.asInteger
  if Number.countLimit < i ∨ i < -Number.countLimit - 1 then Act.defect .overflow else return i

def asBound (v : Value) : Act (Option Int) :=
  match v with
  | .null => pure none
  | v => return some (← v.asInteger)

def asString (v : Value) : Act String :=
  match v with
  | .text s => pure s
  | _ => Act.defect .wrongKind

/-- The items of a container: those of a list or tuple, the characters of a text, the keys of a
dictionary. -/
def iterate (v : Value) : Act (List Value) := do
  match v with
  | .list r | .tuple r => return (← Act.heap).items r
  | .text s => return s.toList.map fun c => .text c.toString
  | .dict r => return ((← Act.heap).entries r).map (·.label)
  | _ => Act.defect .wrongKind

end Value

/-- An argument by its place, or what stands for it where it is left out. -/
def argument (args : List Value) (i : Nat) (otherwise : Value) : Value :=
  args.getD i otherwise

/-- The bytes that a text takes of so many characters as wide as those of a list: a head, and up to
four bytes for each character and for a mark of the end. -/
def textBytes (cs : List Char) (count : Nat) : Nat :=
  if cs.all (·.toNat < 0x80) then 48 + (count + 1)
  else if cs.all (·.toNat < 0x100) then 72 + (count + 1)
  else if cs.all (·.toNat < 0x10000) then 72 + 2 * (count + 1)
  else 72 + 4 * (count + 1)

end StringLambda
