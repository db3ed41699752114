import StringLambda.Machine
import StringLambda.Text.Identifier

namespace StringLambda

/-! Members of receivers, found by a host. -/

/-- What a lambda is called under: the outer bindings and the host of its member searches. -/
structure Context where
  scope : Option Ref
  host : Option Host

def Context.plain : Context := ⟨none, none⟩

/-- A way to call a value on arguments. -/
abbrev Caller := Context → Value → List Value → Run Value

structure Member where
  name : String
  value : Value
  isCallable : Bool

namespace Method

def ofType : ValueType → List Method
  | .text =>
    [.upper, .lower, .strip, .title, .zfill, .isdigit, .startswith, .endswith, .find, .count,
      .index, .join]
      ++ ["capitalize", "casefold", "center", "encode", "expandtabs", "format", "format_map",
        "isalnum", "isalpha", "isascii", "isdecimal", "isidentifier", "islower", "isnumeric",
        "isprintable", "isspace", "istitle", "isupper", "ljust", "lstrip", "maketrans",
        "partition", "removeprefix", "removesuffix", "replace", "rfind", "rindex", "rjust",
        "rpartition", "rsplit", "rstrip", "split", "splitlines", "swapcase",
        "translate"].map .other
  | .list => [.append, .extend, .insert, .remove, .index, .count, .sort, .clear, .copy]
      ++ ["pop", "reverse"].map .other
  | .tuple => [.count, .index]
  | .dict => [.get, .pop, .setdefault, .update, .clear, .copy]
      ++ ["fromkeys", "items", "keys", "popitem", "values"].map .other
  | .int => [.bitLength, .conjugate, .asIntegerRatio]
      ++ ["bit_count", "from_bytes", "to_bytes"].map .other
  | .float => [.isInteger, .conjugate, .asIntegerRatio] ++ ["fromhex", "hex"].map .other
  | .complex => [.conjugate]
  | .lambda => [.pretty]
  | _ => []

/-- The method of a name on the nearest of some types that has one. -/
def find? (types : List ValueType) (name : String) : Option Method :=
  (types.flatMap ofType).find? (·.name == name)

end Method

namespace Value

def numberPart? (n : Number) (name : String) : Option Number :=
  match n, name with
  | n, "real" => some n
  | .int _, "imag" => some (.int 0)
  | .float _, "imag" => some (.float 0)
  | .int i, "numerator" => some (.int i)
  | .int _, "denominator" => some (.int 1)
  | _, _ => none

def complexPart? (re im : Float) (name : String) : Option Value :=
  match name with
  | "real" => some (.ofFloat re)
  | "imag" => some (.ofFloat im)
  | _ => none

/-- The type of the tree that the body of a lambda is, as an object. -/
def treeType : Tree → ValueType
  | .leaf .. => .user 0 "Tok" (.under .object .none)
  | .node .. => .user 1 "Tree" (.under .object .none)

def lambdaPart? (f : Lambda) (name : String) : Act (Option Value) :=
  match name with
  | "source" => pure (some (.text f.source))
  | "params" => do return some (← Act.newTuple (f.params.map .text))
  | "arity" => pure (some (.ofNat f.arity))
  | "form" => pure (some (.text f.form.name))
  | "body" => do
    let place ← Act.alloc (.record [])
    return some (.record { place with type? := some (treeType f.body) })
  | _ => pure none

/-- The function and the arguments that a member has been bound to so far. -/
def boundParts : Value → Value × List Value
  | .bound _ function receiver =>
    let (function, receivers) := boundParts function
    (function, receivers ++ [receiver])
  | v => (v, [])

def boundPart? (v : Value) (name : String) : Act (Option Value) :=
  match name with
  | "func" => pure (some v.boundParts.1)
  | "args" => do return some (← Act.newTuple v.boundParts.2)
  | "keywords" => do return some (← Act.newDict [])
  | _ => pure none

def part? (v : Value) (name : String) : Act (Option Value) :=
  match v with
  | .record r => do return ((← Act.heap).fields r).lookup name
  | .complex re im => pure (complexPart? re im name)
  | .lambda _ f => lambdaPart? f name
  | .bound .. => v.boundPart? name
  | v => pure ((v.numeric?.bind (numberPart? · name)).map .number)

/-- What a value has under a name by itself: a part that is a value, or a method. -/
def attribute? (v : Value) (name : String) : Act (Option Value) := do
  match ← v.part? name with
  | some part => return some part
  | none =>
    match Method.find? v.type.lineage name with
    | some m => return some (.method (← Act.freshId) v m)
    | none => return none

def entry? (v : Value) (name : String) : Act (Option Value) :=
  match v with
  | .dict r => do return Entry.find? (.text name) ((← Act.heap).entries r)
  | _ => pure none

end Value

namespace Member

def ofValue (name : String) (v : Value) : Member :=
  ⟨name, v, v.isCallable⟩

/-- A registered member as it is on a receiver: a property is read, a function is bound. -/
def ofRegistration (call : Caller) (reg : Registration) (receiver : Value) (name : String) :
    Run Member := do
  if reg.isProperty then
    return ⟨name, ← call .plain reg.function [receiver], false⟩
  else if reg.function.isCallable then
    return ⟨name, .bound (← Run.freshId) reg.function receiver, true⟩
  else Run.defect .wrongKind

/-- Registered members come first, then the entries of a dictionary, then what a value has by
itself; the last only under identifiers that are not reserved. -/
def findStandard (call : Caller) (receiver : Value) (name : String) : Run (Option Member) := do
  match ← Run.registration? receiver.type.lineage name with
  | some reg => return some (← ofRegistration call reg receiver name)
  | none =>
    match ← receiver.entry? name with
    | some v => return some (ofValue name v)
    | none =>
      if !Text.isIdentifier name || Text.isReserved name then return none
      else return (← receiver.attribute? name).map (ofValue name)

/-- How a host finds members by itself. -/
def findBy (call : Caller) (host : Host) (receiver : Value) (name : String) :
    Run (Option Member) := do
  match host with
  | .standard | .other _ => findStandard call receiver name
  | .keysOnly => return (← receiver.entry? name).map (ofValue name)
  | .tracing =>
    modify fun m => { m with searches := (receiver.type, name) :: m.searches }
    findStandard call receiver name

def find (call : Caller) (host : Host) (receiver : Value) (name : String) :
    Run (Option Member) := do
  match ← Run.search? host with
  | some search => return (← search receiver name).map fun (v, callable) => ⟨name, v, callable⟩
  | none => findBy call host receiver name

end Member

end StringLambda
