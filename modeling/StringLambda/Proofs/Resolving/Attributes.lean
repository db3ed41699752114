import Mathlib.Data.List.Nodup
import StringLambda.Member

namespace StringLambda

/-! What values have under names by themselves: the parts that are read off them, and the methods of
the types that they are instances of. -/

/-- The types above a type, as a list. -/
inductive Lineage.Lists : Lineage → List ValueType → Prop
  | none : Lists .none []
  | under {t : ValueType} {others : Lineage} {ts : List ValueType} :
      Lists others ts → Lists (.under t others) (t :: ts)

theorem Lineage.lists_iff {above : Lineage} {ts : List ValueType} :
    above.Lists ts ↔ ts = above.types := by
  constructor
  · intro h
    induction h with
    | none => rfl
    | under _ ih => rw [types, ih]
  · rintro rfl
    match above with
    | .none => exact .none
    | .under t others => exact .under (lists_iff.mpr rfl)

namespace ValueType

/-- The order in which the types of an instance are asked. Truth values are integers, everything is
an object, and a type of the embedding program has the types above it that it was made with. -/
inductive HasLineage : ValueType → List ValueType → Prop
  | object : HasLineage .object [.object]
  | bool : HasLineage .bool [.bool, .int, .object]
  | plain {t : ValueType} : t ∈ [none, int, float, complex, text, list, tuple, dict, record, lambda,
      function, bound, native, method] → HasLineage t [t, .object]
  | user {id : Nat} {name : String} {above : Lineage} {ts : List ValueType} :
      above.Lists ts → HasLineage (.user id name above) (.user id name above :: ts)

theorem hasLineage_iff {t : ValueType} {ts : List ValueType} :
    t.HasLineage ts ↔ ts = t.lineage := by
  constructor
  · intro h
    cases h with
    | object | bool => rfl
    | plain ht =>
        simp only [List.mem_cons, List.not_mem_nil, or_false] at ht
        rcases ht with rfl | rfl | rfl | rfl | rfl | rfl | rfl | rfl | rfl | rfl | rfl | rfl |
          rfl | rfl <;> rfl
    | user habove => rw [lineage, Lineage.lists_iff.mp habove]
  · rintro rfl
    cases t with
    | object => exact .object
    | bool => exact .bool
    | user id name above => exact .user (Lineage.lists_iff.mpr rfl)
    | _ => exact .plain (by decide)

/-- The names of the methods that a type adds to those of the types above it. -/
def methodNames : ValueType → List String
  | .text => ["capitalize", "casefold", "center", "count", "encode", "endswith", "expandtabs",
      "find", "format", "format_map", "index", "isalnum", "isalpha", "isascii", "isdecimal",
      "isdigit", "isidentifier", "islower", "isnumeric", "isprintable", "isspace", "istitle",
      "isupper", "join", "ljust", "lower", "lstrip", "maketrans", "partition", "removeprefix",
      "removesuffix", "replace", "rfind", "rindex", "rjust", "rpartition", "rsplit", "rstrip",
      "split", "splitlines", "startswith", "strip", "swapcase", "title", "translate", "upper",
      "zfill"]
  | .list => ["append", "clear", "copy", "count", "extend", "index", "insert", "pop", "remove",
      "reverse", "sort"]
  | .tuple => ["count", "index"]
  | .dict => ["clear", "copy", "fromkeys", "get", "items", "keys", "pop", "popitem", "setdefault",
      "update", "values"]
  | .int => ["as_integer_ratio", "bit_count", "bit_length", "conjugate", "from_bytes", "to_bytes"]
  | .float => ["as_integer_ratio", "conjugate", "fromhex", "hex", "is_integer"]
  | .complex => ["conjugate"]
  | .lambda => ["pretty"]
  | _ => []

theorem methodNames_perm (t : ValueType) :
    t.methodNames.Perm ((Method.ofType t).map Method.name) := by
  cases t with
  | user => exact .nil
  | _ => decide +kernel

theorem methodNames_nodup (t : ValueType) : t.methodNames.Nodup := by
  cases t with
  | user => exact .nil
  | _ => decide +kernel

theorem mem_methodNames_iff {t : ValueType} {name : String} :
    name ∈ t.methodNames ↔ ∃ method ∈ Method.ofType t, method.name = name := by
  rw [t.methodNames_perm.mem_iff, List.mem_map]

end ValueType

namespace Method

variable {types : List ValueType} {name : String} {method : Method}

theorem eq_of_name_eq {t : ValueType} {other : Method} (h : method ∈ ofType t)
    (hother : other ∈ ofType t) (hname : method.name = other.name) : method = other :=
  List.inj_on_of_nodup_map (t.methodNames_perm.nodup_iff.mp t.methodNames_nodup) h hother hname

theorem find?_eq_some_iff : find? types name = some method ↔
    ∃ nearer t farther, types = nearer ++ t :: farther ∧ method ∈ ofType t ∧ method.name = name ∧
      ∀ u ∈ nearer, name ∉ u.methodNames := by
  rw [find?, List.find?_flatMap, List.findSome?_eq_some_iff]
  constructor
  · rintro ⟨nearer, t, farther, htypes, hfound, hnearer⟩
    refine ⟨nearer, t, farther, htypes, List.mem_of_find?_eq_some hfound, ?_, fun u hu => ?_⟩
    · simpa using List.find?_some hfound
    · have hnone := List.find?_eq_none.mp (hnearer u hu)
      rintro hname
      obtain ⟨other, hother, rfl⟩ := ValueType.mem_methodNames_iff.mp hname
      exact hnone other hother (by simp)
  · rintro ⟨nearer, t, farther, htypes, hmem, rfl, hnearer⟩
    refine ⟨nearer, t, farther, htypes, ?_, fun u hu => ?_⟩
    · cases hfound : (ofType t).find? (·.name == method.name) with
      | none => exact absurd (List.find?_eq_none.mp hfound method hmem) (by simp)
      | some other =>
          have hname : other.name = method.name := by simpa using List.find?_some hfound
          rw [eq_of_name_eq (List.mem_of_find?_eq_some hfound) hmem hname]
    · refine List.find?_eq_none.mpr fun other hother hname => hnearer u hu ?_
      exact ValueType.mem_methodNames_iff.mpr ⟨other, hother, by simpa using hname⟩

end Method

namespace Value

/-- What values are instances of. -/
inductive HasType : Value → ValueType → Prop
  | null : HasType .null .none
  | bool {b : Bool} : HasType (.bool b) .bool
  | int {i : Int} : HasType (.ofInt i) .int
  | float {x : Float} : HasType (.ofFloat x) .float
  | complex {re im : Float} : HasType (.complex re im) .complex
  | text {s : String} : HasType (.text s) .text
  | list {i : Nat} : HasType (.list ⟨i, none⟩) .list
  | tuple {i : Nat} : HasType (.tuple ⟨i, none⟩) .tuple
  | dict {i : Nat} : HasType (.dict ⟨i, none⟩) .dict
  | record {i : Nat} : HasType (.record ⟨i, none⟩) .record
  | container {v : Value} {i : Nat} {t : ValueType} :
      v ∈ [.list ⟨i, some t⟩, .tuple ⟨i, some t⟩, .dict ⟨i, some t⟩, .record ⟨i, some t⟩] →
      HasType v t
  | lambda {id : Nat} {f : Lambda} : HasType (.lambda id f) .lambda
  | closure {id : Nat} {params : List String} {body : Tree} {locals : List (String × Value)}
      {scope : Option Ref} {host : Option Host} :
      HasType (.closure id params body locals scope host) .function
  | bound {id : Nat} {function receiver : Value} : HasType (.bound id function receiver) .bound
  | native {f : GlobalFunction} :
      f ∈ [.length, .absolute, .least, .greatest, .rounded, .total, .sorted] →
      HasType (.builtin (.global f)) .native
  | function {f : Builtin} :
      f ∉ [.global .length, .global .absolute, .global .least, .global .greatest, .global .rounded,
        .global .total, .global .sorted] → HasType (.builtin f) .function
  | pretty {id : Nat} {receiver : Value} : HasType (.method id receiver .pretty) .method
  | method {id : Nat} {receiver : Value} {m : Method} :
      m ≠ .pretty → HasType (.method id receiver m) .native

theorem hasType_iff {v : Value} {t : ValueType} : v.HasType t ↔ t = v.type := by
  constructor
  · intro h
    cases h with
    | container hv =>
        simp only [List.mem_cons, List.not_mem_nil, or_false] at hv
        rcases hv with rfl | rfl | rfl | rfl <;> rfl
    | @native f hf => cases f <;> simp at hf <;> rfl
    | @function f hf =>
        cases f with
        | global f => cases f <;> simp at hf <;> rfl
        | _ => rfl
    | @method id receiver m hm => cases m <;> first | rfl | exact absurd rfl hm
    | _ => rfl
  · rintro rfl
    cases v with
    | null => exact .null
    | bool => exact .bool
    | number n =>
        cases n with
        | int i => exact .int
        | float x => exact .float
    | complex => exact .complex
    | text => exact .text
    | lambda => exact .lambda
    | closure => exact .closure
    | bound => exact .bound
    | builtin f =>
        cases f with
        | global f => cases f <;> first | exact .native (by decide) | exact .function (by decide)
        | _ => exact .function (by simp)
    | method id receiver m => cases m <;> first | exact .pretty | exact .method nofun
    | list r | tuple r | dict r | record r =>
        obtain ⟨i, none | t⟩ := r
        · constructor
        · exact @HasType.container _ i t (by simp)

/-- The integer that a value stands for as a number. -/
inductive IsInteger : Value → Int → Prop
  | int {i : Int} : IsInteger (.ofInt i) i
  | yes : IsInteger (.bool true) 1
  | no : IsInteger (.bool false) 0

/-- A member that has been bound to receivers, the innermost receiver first. -/
inductive Binds : Value → Value → List Value → Prop
  | none {v : Value} : (∀ id function receiver, v ≠ .bound id function receiver) → Binds v v []
  | one {id : Nat} {inner receiver function : Value} {receivers : List Value} :
      Binds inner function receivers →
      Binds (.bound id inner receiver) function (receivers ++ [receiver])

/-- The parts that are read off values, each with what reading it does. -/
inductive HasPart (h : Heap) : Value → String → Act Value → Prop
  | field {r : Ref} {name : String} {v : Value} :
      (h.fields r).lookup name = some v → HasPart h (.record r) name (pure v)
  | integer {v : Value} {i : Int} {name : String} :
      v.IsInteger i → name ∈ ["real", "numerator"] → HasPart h v name (pure (.ofInt i))
  | noImaginary {v : Value} {i : Int} : v.IsInteger i → HasPart h v "imag" (pure (.ofInt 0))
  | denominator {v : Value} {i : Int} : v.IsInteger i → HasPart h v "denominator" (pure (.ofInt 1))
  | float {x : Float} : HasPart h (.ofFloat x) "real" (pure (.ofFloat x))
  | noImaginaryFloat {x : Float} : HasPart h (.ofFloat x) "imag" (pure (.ofFloat 0))
  | real {re im : Float} : HasPart h (.complex re im) "real" (pure (.ofFloat re))
  | imaginary {re im : Float} : HasPart h (.complex re im) "imag" (pure (.ofFloat im))
  | source {id : Nat} {f : Lambda} : HasPart h (.lambda id f) "source" (pure (.text f.source))
  | params {id : Nat} {f : Lambda} :
      HasPart h (.lambda id f) "params" (Act.newTuple (f.params.map .text))
  | arity {id : Nat} {f : Lambda} :
      HasPart h (.lambda id f) "arity" (pure (.ofNat f.params.length))
  | form {id : Nat} {f : Lambda} : HasPart h (.lambda id f) "form" (pure (.text f.form.name))
  /-- The tree of a lambda is an object that is made for it. -/
  | body {id : Nat} {f : Lambda} : HasPart h (.lambda id f) "body" (do
      let place ← Act.alloc (.record [])
      return .record { place with type? := some (treeType f.body) })
  | function {id : Nat} {inner receiver function : Value} {receivers : List Value} :
      Binds (.bound id inner receiver) function receivers →
      HasPart h (.bound id inner receiver) "func" (pure function)
  | receivers {id : Nat} {inner receiver function : Value} {receivers : List Value} :
      Binds (.bound id inner receiver) function receivers →
      HasPart h (.bound id inner receiver) "args" (Act.newTuple receivers)
  | noKeywords {id : Nat} {inner receiver : Value} :
      HasPart h (.bound id inner receiver) "keywords" (Act.newDict [])

theorem isInteger_iff {v : Value} {i : Int} : v.IsInteger i ↔ v.integer? = some i := by
  constructor
  · intro h
    cases h <;> rfl
  · intro h
    cases v with
    | number n =>
        cases n with
        | int j =>
            cases h
            exact .int
        | float x => cases h
    | bool b =>
        cases b with
        | true =>
            cases h
            exact .yes
        | false =>
            cases h
            exact .no
    | _ => cases h

theorem binds_boundParts (v : Value) : Binds v v.boundParts.1 v.boundParts.2 := by
  cases v with
  | bound id inner receiver => exact .one (binds_boundParts inner)
  | _ => exact .none nofun

theorem boundParts_of_binds {v function : Value} {receivers : List Value}
    (h : Binds v function receivers) : v.boundParts = (function, receivers) := by
  induction h with
  | @none v hv =>
      cases v with
      | bound id function receiver => exact absurd rfl (hv id function receiver)
      | _ => rfl
  | one _ ih => rw [boundParts, ih]

/-- What is read off a value under a name, if it is a part. -/
def reading? (h : Heap) (name : String) : Value → Option (Act Value)
  | .record r => ((h.fields r).lookup name).map pure
  | .complex re im => (complexPart? re im name).map pure
  | .lambda _ f =>
    match name with
    | "source" => some (pure (.text f.source))
    | "params" => some (Act.newTuple (f.params.map .text))
    | "arity" => some (pure (.ofNat f.params.length))
    | "form" => some (pure (.text f.form.name))
    | "body" => some do
      let place ← Act.alloc (.record [])
      return .record { place with type? := some (treeType f.body) }
    | _ => none
  | .bound id inner receiver =>
    match name with
    | "func" => some (pure (boundParts (.bound id inner receiver)).1)
    | "args" => some (Act.newTuple (boundParts (.bound id inner receiver)).2)
    | "keywords" => some (Act.newDict [])
    | _ => none
  | v => (v.numeric?.bind (numberPart? · name)).map fun n => pure (.number n)

variable {h : Heap} {v : Value} {name : String} {read : Act Value}

theorem reading?_of_hasPart (hpart : v.HasPart h name read) : v.reading? h name = some read := by
  cases hpart with
  | field hfield => rw [reading?, hfield, Option.map_some]
  | integer hv hname =>
      simp only [List.mem_cons, List.not_mem_nil, or_false] at hname
      rcases hname with rfl | rfl <;> cases hv <;> rfl
  | noImaginary hv | denominator hv => cases hv <;> rfl
  | function hbinds | receivers hbinds =>
      rw [reading?, boundParts_of_binds hbinds]
  | _ => rfl

theorem numberPart?_int {i : Int} {n : Number} (h : numberPart? (.int i) name = some n) :
    name ∈ ["real", "numerator"] ∧ n = .int i ∨ name = "imag" ∧ n = .int 0 ∨
      name = "denominator" ∧ n = .int 1 := by
  unfold numberPart? at h
  split at h <;> simp_all

theorem numberPart?_float {x : Float} {n : Number} (h : numberPart? (.float x) name = some n) :
    name = "real" ∧ n = .float x ∨ name = "imag" ∧ n = .float 0 := by
  unfold numberPart? at h
  split at h <;> simp_all

theorem hasPart_of_isInteger {i : Int} {n : Number} (hv : v.IsInteger i)
    (hn : numberPart? (.int i) name = some n) : v.HasPart h name (pure (.number n)) := by
  obtain ⟨hname, rfl⟩ | ⟨rfl, rfl⟩ | ⟨rfl, rfl⟩ := numberPart?_int hn
  · exact .integer hv hname
  · exact .noImaginary hv
  · exact .denominator hv

theorem hasPart_of_reading? (hread : v.reading? h name = some read) : v.HasPart h name read := by
  cases v with
  | record r =>
      obtain ⟨v, hv, rfl⟩ := Option.map_eq_some_iff.mp hread
      exact .field hv
  | complex re im =>
      obtain ⟨v, hv, rfl⟩ := Option.map_eq_some_iff.mp hread
      unfold complexPart? at hv
      split at hv
      all_goals cases hv
      · exact .real
      · exact .imaginary
  | lambda id f =>
      unfold reading? at hread
      dsimp only at hread
      split at hread
      all_goals cases hread
      · exact .source
      · exact .params
      · exact .arity
      · exact .form
      · exact .body
  | bound id inner receiver =>
      unfold reading? at hread
      dsimp only at hread
      split at hread
      all_goals cases hread
      · exact .function (binds_boundParts _)
      · exact .receivers (binds_boundParts _)
      · exact .noKeywords
  | bool b =>
      obtain ⟨n, hn, rfl⟩ := Option.map_eq_some_iff.mp hread
      exact hasPart_of_isInteger (isInteger_iff.mpr rfl) hn
  | number n =>
      obtain ⟨k, hk, rfl⟩ := Option.map_eq_some_iff.mp hread
      cases n with
      | int i => exact hasPart_of_isInteger .int hk
      | float x =>
          obtain ⟨rfl, rfl⟩ | ⟨rfl, rfl⟩ := numberPart?_float hk
          · exact .float
          · exact .noImaginaryFloat
  | _ => cases hread

theorem hasPart_iff : v.HasPart h name read ↔ v.reading? h name = some read :=
  ⟨reading?_of_hasPart, hasPart_of_reading?⟩

theorem part?_eq (v : Value) (name : String) (s : Arena) :
    v.part? name s = (v.reading? s.heap name).elim (.ok none s) fun read => (some <$> read) s := by
  cases v with
  | record r =>
      show EStateM.Result.ok ((s.heap.fields r).lookup name) s = _
      rw [reading?]
      cases (s.heap.fields r).lookup name <;> rfl
  | complex re im =>
      show EStateM.Result.ok (complexPart? re im name) s = _
      rw [reading?]
      cases complexPart? re im name <;> rfl
  | lambda id f =>
      dsimp only [part?, lambdaPart?, reading?]
      split
      case h_6 =>
        simp_all only [Option.elim]
        rfl
      all_goals rfl
  | bound id inner receiver =>
      dsimp only [part?, boundPart?, reading?]
      split
      case h_4 =>
        simp_all only [Option.elim]
        rfl
      all_goals rfl
  | number _ | bool _ =>
      dsimp only [part?, reading?]
      generalize Option.bind _ (numberPart? · name) = part
      cases part <;> rfl
  | _ => rfl

end Value

/-- What a value has under a name by itself. -/
inductive Attribute where
  | part (read : Act Value)
  | method (method : Method)

/-- A part is read off the receiver, and a method is bound to it. -/
def Attribute.read (receiver : Value) : Attribute → Act Value
  | .part act => act
  | .method m => do return .method (← Act.freshId) receiver m

namespace Value

/-- Parts come first, then the method of the name on the nearest of some types that has one. -/
inductive Has (h : Heap) (v : Value) (types : List ValueType) (name : String) : Attribute → Prop
  | part {read : Act Value} : v.HasPart h name read → Has h v types name (.part read)
  | method {nearer farther : List ValueType} {t : ValueType} {method : Method} :
      (∀ read, ¬ v.HasPart h name read) → types = nearer ++ t :: farther →
      (∀ u ∈ nearer, name ∉ u.methodNames) → name ∈ t.methodNames → method ∈ Method.ofType t →
      method.name = name → Has h v types name (.method method)

/-- What a value has under a name, looked up as a search does. -/
def own? (h : Heap) (name : String) (v : Value) : Option Attribute :=
  match v.reading? h name with
  | some read => some (.part read)
  | none => (Method.find? v.type.lineage name).map .method

theorem has_iff {h : Heap} {v : Value} {name : String} {found : Attribute} :
    v.Has h v.type.lineage name found ↔ v.own? h name = some found := by
  rw [own?]
  constructor
  · intro hfound
    cases hfound with
    | part hpart => rw [hasPart_iff.mp hpart]
    | method hnone htypes hnearer _ hmethod hname =>
        have hread : v.reading? h name = none :=
          Option.eq_none_iff_forall_ne_some.mpr fun read => mt hasPart_iff.mpr (hnone read)
        rw [hread]
        dsimp only
        rw [Method.find?_eq_some_iff.mpr ⟨_, _, _, htypes, hmethod, hname, hnearer⟩,
          Option.map_some]
  · intro hfound
    cases hread : v.reading? h name with
    | some read =>
        rw [hread] at hfound
        cases hfound
        exact .part (hasPart_iff.mpr hread)
    | none =>
        rw [hread] at hfound
        obtain ⟨method, hmethod, rfl⟩ := Option.map_eq_some_iff.mp hfound
        obtain ⟨_, t, _, htypes, hmem, hname, hnearer⟩ := Method.find?_eq_some_iff.mp hmethod
        refine .method (fun read hpart => ?_) htypes hnearer
          (ValueType.mem_methodNames_iff.mpr ⟨method, hmem, hname⟩) hmem hname
        rw [hasPart_iff.mp hpart] at hread
        cases hread

theorem attribute?_eq (v : Value) (name : String) (s : Arena) :
    v.attribute? name s =
      (v.own? s.heap name).elim (.ok none s) fun found => (some <$> found.read v) s := by
  have hpart := part?_eq v name s
  rw [attribute?, own?]
  cases hread : v.reading? s.heap name with
  | some read =>
      rw [hread] at hpart
      simp only [Bind.bind, EStateM.bind, hpart, Option.elim, Functor.map, EStateM.map,
        Attribute.read]
      cases read s <;> rfl
  | none =>
      rw [hread] at hpart
      simp only [Bind.bind, EStateM.bind, hpart, Option.elim]
      cases Method.find? v.type.lineage name <;> rfl

end Value

end StringLambda
