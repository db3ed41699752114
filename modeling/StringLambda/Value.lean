import StringLambda.Builtin
import StringLambda.Lambda
import StringLambda.Number.Basic

namespace StringLambda

/-! Values. Containers are references into a heap, so that two names can share one container. -/

mutual

/-- The types of values, and the type `object` above all of them. -/
inductive ValueType where
  | object | none | bool | int | float | complex | text | list | tuple | dict | record
  | lambda | function | bound | native | method
  /-- A type of the embedding program, told apart by a number, with the types above it. -/
  | user (id : Nat) (name : String) (above : Lineage)

/-- The types above a type, the nearest first. -/
inductive Lineage where
  | none
  | under (type : ValueType) (others : Lineage)

end

deriving instance DecidableEq for ValueType, Lineage

def Lineage.types : Lineage → List ValueType
  | .none => []
  | .under t others => t :: others.types

namespace ValueType

def name : ValueType → String
  | .object => "object" | .none => "NoneType" | .bool => "bool" | .int => "int"
  | .float => "float" | .complex => "complex" | .text => "str" | .list => "list"
  | .tuple => "tuple" | .dict => "dict" | .record => "SimpleNamespace"
  | .lambda => "CompiledLambda" | .function => "function" | .bound => "partial"
  | .native => "builtin_function_or_method" | .method => "method"
  | .user _ name _ => name

def builtins : List ValueType := [
  .object, .none, .bool, .int, .float, .complex, .text, .list, .tuple, .dict, .record,
  .lambda, .function, .bound, .native, .method]

def ofName? (s : String) : Option ValueType :=
  builtins.find? (·.name == s)

/-- A type and the types above it, the nearest first: a truth value is an integer, and everything
is an object. -/
def lineage : ValueType → List ValueType
  | .object => [.object]
  | .bool => [.bool, .int, .object]
  | .user id name above => .user id name above :: above.types
  | t => [t, .object]

end ValueType

/-- The place of a container in the heap, and the type of the embedding program that the container
is an instance of. A record of such a type is an object with fields. -/
structure Ref where
  index : Nat
  type? : Option ValueType
deriving DecidableEq

namespace Ref

def typeOr (r : Ref) (t : ValueType) : ValueType :=
  r.type?.getD t

/-- Whether what is at the place, a record, is told by its fields. An object of a type that does not
descend from records is told by its identity. -/
def isRecord (r : Ref) : Bool :=
  (r.typeOr .record).lineage.contains .record

end Ref

/-- How the members of a receiver are found. -/
inductive Host where
  /-- Registered members, then dictionary keys, then what the receiver has by itself. -/
  | standard
  /-- Dictionary keys alone. -/
  | keysOnly
  /-- As the standard host, with a record of every search. -/
  | tracing
  /-- As the standard host, unless the embedding program puts another way in its place. -/
  | other (id : Nat)
deriving DecidableEq

inductive Value where
  | null
  | bool (b : Bool)
  | number (n : Number)
  | complex (re im : Float)
  | text (s : String)
  | list (ref : Ref)
  | tuple (ref : Ref)
  | dict (ref : Ref)
  | record (ref : Ref)
  | lambda (id : Nat) (function : Lambda)
  /-- A nested lambda with the bindings, the scope and the host that it was made under. -/
  | closure (id : Nat) (params : List String) (body : Tree) (locals : List (String × Value))
      (scope : Option Ref) (host : Option Host)
  /-- A registered member that has been read off a receiver. -/
  | bound (id : Nat) (function receiver : Value)
  | builtin (function : Builtin)
  /-- A method that has been read off a receiver. -/
  | method (id : Nat) (receiver : Value) (method : Method)

instance : Inhabited Value := ⟨.null⟩

namespace Value

def ofInt (i : Int) : Value :=
  .number (.int i)

def ofNat (n : Nat) : Value :=
  .number (.int n)

def ofFloat (x : Float) : Value :=
  .number (.float x)

def type : Value → ValueType
  | .null => .none
  | .bool _ => .bool
  | .number (.int _) => .int
  | .number (.float _) => .float
  | .complex _ _ => .complex
  | .text _ => .text
  | .list r => r.typeOr .list
  | .tuple r => r.typeOr .tuple
  | .dict r => r.typeOr .dict
  | .record r => r.typeOr .record
  | .lambda _ _ => .lambda
  | .closure .. => .function
  | .bound .. => .bound
  | .builtin (.global f) => if f.isNative then .native else .function
  | .builtin _ => .function
  | .method _ _ .pretty => .method
  | .method .. => .native

/-- The name of the type in messages about operands, where nothing is called `null`. -/
def typeName (v : Value) : String :=
  match v with
  | .null => "null"
  | v => v.type.name

def isCallable : Value → Bool
  | .lambda .. | .closure .. | .bound .. | .builtin _ | .method .. => true
  | _ => false

def number? : Value → Option Number
  | .number n => some n
  | _ => none

def isNumber (v : Value) : Bool :=
  v.number?.isSome

/-- The number that a value counts as, where a truth value is one or zero. -/
def numeric? : Value → Option Number
  | .number n => some n
  | .bool b => some (.int (if b then 1 else 0))
  | _ => none

def integer? (v : Value) : Option Int :=
  match v.numeric? with
  | some (.int i) => some i
  | _ => none

end Value

end StringLambda
