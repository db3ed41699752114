import StringLambda.Machine

namespace StringLambda

/-! Compilation of sources through the cache. -/

/-- The names that an expression does not take as parameters: those of the scope and the globals. -/
def Machine.binds (m : Machine) (names : NameSet Key) (name : String) : Bool :=
  names.contains (.text name) || (m.global? name).isSome

def Machine.isStale (m : Machine) (f : Lambda) : Bool :=
  f.form == .implicit && f.params.any fun p => (m.global? p).isSome

namespace Run

def compileAnew (key : LambdaKey) : Run (Nat × Lambda) := do
  match Lambda.ofSource ((← get).binds key.names) key.source with
  | .error e => fault (.source e)
  | .ok f =>
    let id ← compiledId
    modify fun m => { m with cache := m.cache.put key (id, f) }
    report (.compiled key.source f.form f.params)
    return (id, f)

/-- The lambda of a source under the names that are bound outside of it: the remembered one, unless
it is stale. -/
def compile (source : String) (names : List Key) : Run (Nat × Lambda) := do
  let key := LambdaKey.ofNames source names
  let m ← get
  match m.cache.get? key with
  | some (id, f) =>
    if m.isStale f then compileAnew key
    else
      report (.cacheHit source)
      return (id, f)
  | none => compileAnew key

def compileValue (source : Value) (names : List Key) : Run Value := do
  match source with
  | .text s =>
    let (id, f) ← compile s names
    return .lambda id f
  | v => fault (.compile (.sourceNotText v.type))

def toFunction (spec : Value) : Run Value :=
  if spec.isCallable then pure spec
  else
    match spec with
    | .text _ => compileValue spec []
    | v => fault (.compile (.notFunction v.type))

def clearCache : Run Unit :=
  modify fun m => { m with cache := .empty }

end Run

end StringLambda
