import StringLambda.Defect
import StringLambda.Heap

namespace StringLambda

/-! The texts of values: as results, as parts of other text, and in full detail. -/

/-- A complex number, its real part left out when it is a positive zero. -/
def complexText (re im : Float) : String :=
  let imText := floatText im Layout.complexPart
  if re == 0 && !Float64.isNegative re then imText ++ "j"
  else
    let sign := if imText.toList.head? = some '-' then "" else "+"
    "(" ++ floatText re Layout.complexPart ++ sign ++ imText ++ "j)"

namespace Value

/-- The detailed text of a value that holds no others. An integer of too many digits has none. -/
def plainDisplay : Value → Except Defect String
  | .null => .ok "None"
  | .bool b => .ok (if b then "True" else "False")
  | .number n => n.text
  | .complex re im => .ok (complexText re im)
  | .text s => .ok (Text.quoted s)
  | .lambda _ f => .ok f.describe
  | .closure _ params .. => .ok ("<function arrow(" ++ ", ".intercalate params ++ ")>")
  | .builtin (.global f) =>
    .ok (if f.isNative then "<built-in function " ++ f.nativeName ++ ">" else "<function>")
  | .method _ (.lambda _ f) _ =>
    .ok ("<bound method CompiledLambda.pretty of " ++ f.describe ++ ">")
  | .method _ _ m => .ok ("<built-in method " ++ m.name ++ ">")
  | _ => .ok "<function>"

/-- The texts of a function and of what it has been bound to so far, as one. -/
def boundText : List String → String
  | [s] => s
  | ss => "functools.partial(" ++ ", ".intercalate ss ++ ")"

/-- The texts of a member that has been read off a receiver: of its function and of the receiver.
Any other value has one text. -/
def boundTexts (display : Value → Except Defect String) : Value → Except Defect (List String)
  | .bound _ function receiver => do
    let front ← boundTexts display function
    return front ++ [boundText (← boundTexts display receiver)]
  | v => do return [← display v]

def displayBy (display : Value → Except Defect String) (v : Value) : Except Defect String := do
  return boundText (← v.boundTexts display)

end Value

def Ref.recordName (r : Ref) : String :=
  (r.type?.map (·.name)).getD "namespace"

namespace Heap

/-- The detailed text of a value inside the containers at the places `around` it; each of those is
cut short where it comes again. -/
def displayAt (h : Heap) : Nat → List Nat → Value → Except Defect String
  | 0, _, v => v.plainDisplay
  | n + 1, around, v =>
    let commas (texts : List String) : String := ", ".intercalate texts
    v.displayBy fun
      | .list r => do
        if around.contains r.index then return "[...]"
        else return "[" ++ commas (← (h.items r).mapM (h.displayAt n (r.index :: around))) ++ "]"
      | .tuple r => do
        if around.contains r.index then return "(...)"
        else
          let texts ← (h.items r).mapM (h.displayAt n (r.index :: around))
          return "(" ++ commas texts ++ (if texts.length == 1 then ",)" else ")")
      | .dict r => do
        if around.contains r.index then return "\x7b...\x7d"
        else
          let entry (e : Entry) : Except Defect String := do
            let label ← h.displayAt n (r.index :: around) e.label
            return label ++ ": " ++ (← h.displayAt n (r.index :: around) e.value)
          return "\x7b" ++ commas (← (h.entries r).mapM entry) ++ "\x7d"
      | .record r => do
        if !r.isRecord then return "<" ++ (r.typeOr .record).name ++ " object>"
        else if around.contains r.index then return r.recordName ++ "(...)"
        else
          let field (f : String × Value) : Except Defect String := do
            return f.1 ++ "=" ++ (← h.displayAt n (r.index :: around) f.2)
          let named := (h.fields r).filter (!·.1.isEmpty)
          return r.recordName ++ "(" ++ commas (← named.mapM field) ++ ")"
      | v => v.plainDisplay

/-- A value in full detail, texts quoted. A field without a name is not shown. -/
def display (h : Heap) (v : Value) : Except Defect String :=
  h.displayAt h.depth [] v

/-- A value as part of other text: the items of lists and tuples between commas, null items
empty. -/
def textAt (h : Heap) : Nat → Value → Except Defect String
  | 0, _ => .error .endlessNesting
  | n + 1, v =>
    let item : Value → Except Defect String
      | .null => .ok ""
      | v => h.textAt n v
    match v with
    | .text s => .ok s
    | .null => .ok "null"
    | .bool b => .ok (if b then "true" else "false")
    | .number x => x.plainText
    | .list r | .tuple r => do return ",".intercalate (← (h.items r).mapM item)
    | v => h.display v

def text (h : Heap) (v : Value) : Except Defect String :=
  h.textAt h.depth v

/-- A value as a result: a text stands as it is, and all but the simplest values in full detail. -/
def render (h : Heap) : Value → Except Defect String
  | .null => .ok "null"
  | .bool b => .ok (if b then "true" else "false")
  | .text s => .ok s
  | v => h.display v

/-- The text of a value in plain words of its own type: a text itself, all else in full detail. -/
def plain (h : Heap) : Value → Except Defect String
  | .text s => .ok s
  | v => h.display v

end Heap

end StringLambda
