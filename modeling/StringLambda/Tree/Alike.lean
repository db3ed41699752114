import StringLambda.Tree

namespace StringLambda

/-! Trees that differ in their places and in the names of variables only. -/

/-- The children of a node that are read as text: operators and member names. -/
def Label.textParts : Label → List Tree → List Tree
  | .compare, [_, op, _] | .add, [_, op, _] | .mul, [_, op, _] | .pow, [_, op, _] => [op]
  | .unary, [op, _] => [op]
  | .field, name :: _ => [name]
  | .method, [name, _] => [name]
  | _, _ => []

mutual

/-- The variables of one tree stand where related variables of the other do. A nested lambda is
alike to none. -/
inductive Alike (related : String → String → Prop) : Tree → Tree → Prop where
  | ident {x y : String} : related x y → Alike related (.leaf .ident x) (.leaf .ident y)
  | leaf {kind : LeafKind} {text : String} :
      kind ≠ .ident → Alike related (.leaf kind text) (.leaf kind text)
  | node {label : Label} {p q : Option Position} {cs ds : List Tree} :
      label ≠ .arrow → label.textParts cs = label.textParts ds → AllAlike related cs ds →
      Alike related (.node label p cs) (.node label q ds)

inductive AllAlike (related : String → String → Prop) : List Tree → List Tree → Prop where
  | nil : AllAlike related [] []
  | cons {t u : Tree} {ts us : List Tree} :
      Alike related t u → AllAlike related ts us → AllAlike related (t :: ts) (u :: us)

end

end StringLambda
