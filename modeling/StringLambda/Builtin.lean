namespace StringLambda

/-! The functions that come with the language: members of texts, sequences and numbers, global
functions, and the methods that values have by themselves. -/

/-- How many arguments a function takes: at least `least`, and at most `most` where that is
given. -/
structure Arity where
  least : Nat
  most : Option Nat

def Arity.exactly (n : Nat) : Arity := ⟨n, some n⟩

def Arity.between (m n : Nat) : Arity := ⟨m, some n⟩

def Arity.atLeast (n : Nat) : Arity := ⟨n, none⟩

def Arity.admits (a : Arity) (count : Nat) : Bool :=
  a.least ≤ count && (a.most.map (decide <| count ≤ ·)).getD true

inductive TextMember where
  | length | toUpperCase | toLowerCase | trim | charAt | indexOf | includes | startsWith | endsWith
  | split | slice | concat | repeated | replace | toString
deriving DecidableEq, Ord

namespace TextMember

def all : List TextMember := [
  .length, .toUpperCase, .toLowerCase, .trim, .charAt, .indexOf, .includes, .startsWith, .endsWith,
  .split, .slice, .concat, .repeated, .replace, .toString]

def name : TextMember → String
  | .length => "length" | .toUpperCase => "toUpperCase" | .toLowerCase => "toLowerCase"
  | .trim => "trim" | .charAt => "charAt" | .indexOf => "indexOf" | .includes => "includes"
  | .startsWith => "startsWith" | .endsWith => "endsWith" | .split => "split" | .slice => "slice"
  | .concat => "concat" | .repeated => "repeat" | .replace => "replace" | .toString => "toString"

def arity : TextMember → Arity
  | .length | .toUpperCase | .toLowerCase | .trim | .toString => .exactly 0
  | .charAt => .between 0 1
  | .includes | .startsWith | .endsWith | .repeated => .exactly 1
  | .indexOf => .between 1 2
  | .replace => .exactly 2
  | .split | .slice => .between 0 2
  | .concat => .atLeast 0

end TextMember

/-- Members of lists; tuples and dictionaries have some of them. -/
inductive SequenceMember where
  | length | push | pop | shift | unshift | concat | join | reverse | slice | indexOf | includes
  | map | filter | reduce | forEach | some | every | find
deriving DecidableEq, Ord

namespace SequenceMember

def all : List SequenceMember := [
  .length, .push, .pop, .shift, .unshift, .concat, .join, .reverse, .slice, .indexOf, .includes,
  .map, .filter, .reduce, .forEach, .some, .every, .find]

def name : SequenceMember → String
  | .length => "length" | .push => "push" | .pop => "pop" | .shift => "shift"
  | .unshift => "unshift" | .concat => "concat" | .join => "join" | .reverse => "reverse"
  | .slice => "slice" | .indexOf => "indexOf" | .includes => "includes" | .map => "map"
  | .filter => "filter" | .reduce => "reduce" | .forEach => "forEach" | .some => "some"
  | .every => "every" | .find => "find"

def arity : SequenceMember → Arity
  | .length | .pop | .shift | .reverse => .exactly 0
  | .push | .unshift | .concat => .atLeast 0
  | .join => .between 0 1
  | .slice => .between 0 2
  | .indexOf | .includes | .map | .filter | .forEach | .some | .every | .find => .exactly 1
  | .reduce => .between 1 2

def ofTuples : List SequenceMember := [.length, .join, .indexOf, .includes]

end SequenceMember

inductive NumberMember where
  | toFixed | toString
deriving DecidableEq, Ord

namespace NumberMember

def all : List NumberMember := [.toFixed, .toString]

def name : NumberMember → String
  | .toFixed => "toFixed"
  | .toString => "toString"

def arity : NumberMember → Arity
  | .toFixed | .toString => .between 0 1

end NumberMember

/-- Global functions, those of the `Math` record among them. -/
inductive GlobalFunction where
  | text | number | parseInt | parseFloat
  | length | absolute | least | greatest | rounded | total | sorted
  | ceil | floor | power | roundHalfUp | squareRoot
deriving DecidableEq, Ord

namespace GlobalFunction

def named : List (String × GlobalFunction) := [
  ("String", .text), ("Number", .number), ("parseInt", .parseInt), ("parseFloat", .parseFloat),
  ("len", .length), ("abs", .absolute), ("min", .least), ("max", .greatest), ("round", .rounded),
  ("sum", .total), ("sorted", .sorted)]

def inMath : List (String × GlobalFunction) := [
  ("abs", .absolute), ("ceil", .ceil), ("floor", .floor), ("max", .greatest), ("min", .least),
  ("pow", .power), ("round", .roundHalfUp), ("sqrt", .squareRoot)]

def arity : GlobalFunction → Arity
  | .text | .number | .parseFloat | .length | .absolute | .sorted => .exactly 1
  | .parseInt | .rounded | .total => .between 1 2
  | .least | .greatest => .atLeast 1
  | .ceil | .floor | .roundHalfUp | .squareRoot => .exactly 1
  | .power => .exactly 2

/-- Functions of the underlying system, which are told apart from those of the language by type. -/
def isNative : GlobalFunction → Bool
  | .length | .absolute | .least | .greatest | .rounded | .total | .sorted => true
  | _ => false

def nativeName : GlobalFunction → String
  | .length => "len" | .absolute => "abs" | .least => "min" | .greatest => "max"
  | .rounded => "round" | .total => "sum" | .sorted => "sorted"
  | _ => ""

end GlobalFunction

inductive Builtin where
  | text (member : TextMember)
  | sequence (member : SequenceMember)
  | number (member : NumberMember)
  | global (function : GlobalFunction)
deriving DecidableEq, Ord

/-- Methods that values have by themselves, where no member is registered under the name. What the
others among them do is not followed. -/
inductive Method where
  | upper | lower | strip | title | zfill | isdigit | startswith | endswith | find
  | count | index | join
  | append | extend | insert | remove | sort | clear | copy
  | get | pop | setdefault | update
  | bitLength | conjugate | asIntegerRatio | isInteger
  | pretty
  | other (name : String)
deriving DecidableEq, Ord

def Method.name : Method → String
  | .upper => "upper" | .lower => "lower" | .strip => "strip" | .title => "title"
  | .zfill => "zfill" | .isdigit => "isdigit" | .startswith => "startswith"
  | .endswith => "endswith" | .find => "find" | .count => "count" | .index => "index"
  | .join => "join" | .append => "append" | .extend => "extend" | .insert => "insert"
  | .remove => "remove" | .sort => "sort" | .clear => "clear" | .copy => "copy" | .get => "get"
  | .pop => "pop" | .setdefault => "setdefault" | .update => "update"
  | .bitLength => "bit_length" | .conjugate => "conjugate"
  | .asIntegerRatio => "as_integer_ratio" | .isInteger => "is_integer" | .pretty => "pretty"
  | .other name => name

end StringLambda
