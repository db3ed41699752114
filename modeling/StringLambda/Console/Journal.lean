import StringLambda.Machine

namespace StringLambda

/-! Log records of the events of runs. -/

namespace Event

def namesText (names : List String) : String :=
  let texts := names.map Text.quoted
  "(" ++ ", ".intercalate texts ++ (if texts.length == 1 then ",)" else ")")

def callableText : Value → String
  | .lambda _ f => " " ++ f.describe
  | _ => ""

def message : Event → String
  | .cacheHit source => "lambda cache hit for " ++ Text.quoted source
  | .compiled source form params =>
    "compiled " ++ Text.quoted source ++ " as " ++ form.name ++ " lambda with params "
      ++ namesText params
  | .invokingCallable v => "invoking callable" ++ callableText v
  | .invokingMember name => "invoking member " ++ Text.quoted name ++ " as method"
  | .readingMember name => "reading member " ++ Text.quoted name
  | .invokingLambda form source => "invoking " ++ form.name ++ " lambda " ++ Text.quoted source

def reporter : Event → String
  | .cacheHit _ | .compiled .. => "ktlambda.compiler"
  | _ => "ktlambda.invoker"

def record (e : Event) : String :=
  "DEBUG " ++ e.reporter ++ ": " ++ e.message

end Event

end StringLambda
