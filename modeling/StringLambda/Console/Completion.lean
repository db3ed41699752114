import StringLambda.Console.Command
import StringLambda.Slice

namespace StringLambda

/-! Completion of commands. -/

/-- A command that would complete the text before the cursor. -/
structure Completion where
  command : Command
  /-- How many characters before the cursor it replaces. -/
  replaced : Nat

/-- The commands that begin as a text does, while no blank ends the name. -/
def completionsOf (before : List Char) : List Completion :=
  if before.head? = some '/' ∧ !before.contains ' ' then
    (Command.all.filter fun c => before.isPrefixOf c.name.toList).map (⟨·, before.length⟩)
  else []

/-- The completions of the text before the cursor. A cursor behind the end has none, not even an
empty list. -/
def completions? (text : List Char) (cursor : Int) : Option (List Completion) :=
  if text.length < cursor then none else some (completionsOf (slice 0 (some cursor) text))

end StringLambda
