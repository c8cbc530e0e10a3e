import TestMigration.Convert.Pass

/-! Render calls: the old library's `mount` and `shallow` become `render`. The name bound
around the first of them is the file's render function; a helper of its own that is already
called `render` is renamed, declaration and calls, so that it does not clash with the
imported one. -/

namespace TestMigration.RenderCall

/-- The old library's functions; a file uses one of them. -/
def primitives : List String := ["shallow", "mount"]

def renderName : String := "render"

/-- What a helper called `render` is called from now on. -/
def helperName : String := "renderFunc"

def plainName? (h : Option Handle) : Looking (Option Handle) := do
  match h with
  | none => return none
  | some h => return if (← h.kind) == .identifier then some h else none

def declarationName? (declaration : Handle) : Looking (Option Handle) := do
  match ← (← declaration.namedChildren).findM? fun child =>
      return (← child.kind) == .variableDeclarator with
  | none => return none
  | some declarator => plainName? (← declarator.field? .name)

def assignedName? (call : Handle) : Looking (Option Handle) := do
  match ← call.closest? (.ofKind .assignmentExpression) with
  | some assignment => plainName? (← assignment.field? .left)
  | none => return none

def declaredName? (call : Handle) : Looking (Option Handle) := do
  if let some declaration ← call.closest? (.ofKinds [.lexicalDeclaration, .variableDeclaration]) then
    if let some name ← declarationName? declaration then return some name
  assignedName? call

/-- The name that the code around a call binds: of the function declaration around it, else
of the variable declaration, else of the assignment. -/
def boundName? (call : Handle) : Looking (Option Handle) := do
  if let some function ← call.closest? (.ofKind .functionDeclaration) then
    if let some name ← function.field? .name then return some name
  declaredName? call

def renameCallee (name : String) (call : Handle) : Editing Unit := do
  match ← (call.field? .callee : Looking _) with
  | some callee => callee.replaceWith name
  | none => throw (.of .missingAttribute "the call has no callee")

/-- Make room for the imported name if it is what the code around the first call binds. -/
def renameHelper (binding : Option Handle) (name : Option String) : Editing Unit := do
  if let some binding := binding then
    if name == some renderName then
      binding.replaceWith helperName
      let uses ← (findAll (.callTo (.exactly renderName)) : Looking _)
      uses.forM (renameCallee helperName)

def renameCalls (binding : Option Handle) (name : Option String) (calls : List Handle) :
    Editing Unit := do
  renameHelper binding name
  calls.forM (renameCallee renderName)

def reportUnbound (primitive : String) (line : Nat) (name : Option String) : Pass Unit := do
  if name.isNone then
    Pass.report .unboundRenderCall
      s!"{primitive}() result is not bound to a name; wrapper references cannot be traced"
      .warning (some line)

/-- Convert the calls of one of the old library's functions; yields the name of the render
function. -/
def convertCalls (primitive : String) (first : Handle) (rest : List Handle) :
    Pass (Option String) := do
  let line ← (first.line : Looking _)
  let binding ← (boundName? first : Looking _)
  let name ← (binding.mapM (·.text) : Looking _)
  let _ ← (Document.batched (renameCalls binding name (first :: rest)) : Editing _)
  reportUnbound primitive line name
  return if name == some renderName then some helperName else name

/-- Convert the calls that were found, each function's own. -/
def convertFound : List (String × List Handle) → Pass (Option String)
  | [] => do
    Pass.report .missingRenderCall "No mount or shallow call found"
    return none
  | [(primitive, first :: rest)] => convertCalls primitive first rest
  | _ => do
    throw (.unsupportedInput
      "File uses both mount and shallow; convert one of them by hand first"
      (← get).document.path)

/-- Convert the render calls; yields the name of the render function. -/
def normalise : Pass (Option String) := do
  let calls ← primitives.mapM fun name => do
    return (name, ← (findAll (.callTo (.exactly name)) : Looking _))
  convertFound (calls.filter fun (_, cs) => !cs.isEmpty)

end TestMigration.RenderCall
