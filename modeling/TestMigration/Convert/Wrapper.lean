import TestMigration.Convert.Pass

/-! Wrapper bindings. A variable that only holds what the render function returned is given
up in favour of the bare call; the names of such variables are remembered. -/

namespace TestMigration.Wrapper

def declarationKinds : Pattern := .ofKinds [.lexicalDeclaration, .variableDeclaration]

def declarators (declaration : Handle) : Looking (List Handle) := do
  (← declaration.namedChildren).filterM fun child => return (← child.kind) == .variableDeclarator

/-- Is it a call, perhaps awaited, of `callee` if one is given? -/
def isCall (h : Handle) (callee : Option String) : Looking Bool := do
  match ← h.awaited? with
  | none => return false
  | some inner =>
    if (← inner.kind) != .callExpression then return false
    match callee with
    | none => return true
    | some name =>
      match ← inner.field? .callee with
      | none => return false
      | some function => return (← function.kind) == .identifier && (← function.text) == name

/-- Name and value of a declaration of one variable that is not exported. -/
def binding? (declaration : Handle) : Looking (Option (Handle × Handle)) := do
  match ← declaration.parent? with
  | none => return none
  | some parent =>
    if (← parent.kind) == .exportStatement then return none
    match ← declarators declaration with
    | [declarator] =>
      match ← declarator.field? .name, ← declarator.field? .value with
      | some name, some value => return some (name, value)
      | _, _ => return none
    | _ => return none

def collapse (declaration value : Handle) : Editing Unit := do
  declaration.replaceWith ((← (value.text : Looking _)) ++ ";")

def isUninitialised (names : List String) (declarator : Handle) : Looking Bool := do
  if (← declarator.field? .value).isSome then return false
  match ← declarator.field? .name with
  | some name => return names.contains (← name.text)
  | none => return false

/-- Delete a declaration's declarators of `names` without a value; it goes with its last one. -/
def removeFrom (names : List String) (declaration : Handle) : Editing Unit := do
  let all ← (declarators declaration : Looking _)
  let doomed ← (all.filterM (isUninitialised names) : Looking _)
  if doomed.isEmpty then return
  if doomed.length == all.length then declaration.remove
  else
    let kept ← ((all.filter fun d => !doomed.any d.same).mapM (·.text) : Looking _)
    let keyword := (Blank.words (← (declaration.text : Looking _))).headD ""
    declaration.replaceWith (keyword ++ " " ++ ", ".intercalate kept ++ ";")

def removeUninitialised (names : List String) : Editing Unit := do
  (← (findAll declarationKinds : Looking _)).forM (removeFrom names)

/-- A declaration whose name and value pass the test collapses to the value; yields the name if
`named` accepts it. -/
def collapseDeclaration (test named : Handle → Handle → Looking Bool) (declaration : Handle) :
    Editing (List String) := do
  match ← (binding? declaration : Looking _) with
  | none => return []
  | some (name, value) =>
    if ← (test name value : Looking _) then
      collapse declaration value
      if ← (named name value : Looking _) then return [← (name.text : Looking _)]
    return []

def collapseDeclarations (test named : Handle → Handle → Looking Bool) :
    Editing (List String) := do
  let names ← (← (findAll declarationKinds : Looking _)).mapM (collapseDeclaration test named)
  return names.flatten

/-- An assignment that passes the test collapses to its right side; yields the left one. -/
def collapseAssignment (test : Handle → Handle → Looking Bool) (a : Handle) :
    Editing (List String) := do
  match ← (a.field? .left : Looking _), ← (a.field? .right : Looking _) with
  | some left, some right =>
    if ← (test left right : Looking _) then
      a.replaceWith (← (right.text : Looking _))
      return [← (left.text : Looking _)]
    return []
  | _, _ => return []

def collapseAssignments (test : Handle → Handle → Looking Bool) :
    Editing (List String) := do
  let assignments ← (findAll (.ofKind .assignmentExpression) : Looking _)
  let names ← assignments.mapM (collapseAssignment test)
  return names.flatten

def isIdentifier (h : Handle) : Looking Bool := return (← h.kind) == .identifier

/-- A plain name for what a call of the render function returns. -/
def holdsResult (function : String) (name value : Handle) : Looking Bool := do
  if ← isIdentifier name then isCall value (some function) else return false

/-- The render function's own name, whatever call it holds. -/
def isNamesake (function : String) (name value : Handle) : Looking Bool := do
  if !(← isIdentifier name) then return false
  if (← name.text) == function then isCall value none else return false

/-- A namesake, or a pattern around a call of the render function. -/
def givesWay (function : String) (name value : Handle) : Looking Bool := do
  if ← isNamesake function name value then return true
  if (← name.kind) == .objectPattern then isCall value (some function) else return false

/-- An assignment to the render function's own name, whatever call it holds. -/
def isAssigned (function : String) (left right : Handle) : Looking Bool := do
  if (← left.text) == function then isCall right none else return false

/-- Variables that hold the result of a call of the render function. -/
def resultsOf (function : String) : Editing (List String) := do
  let (declared, _) ← Document.batched
    (collapseDeclarations (holdsResult function) fun _ _ => return true)
  let (assigned, _) ← Document.batched do
    let names ← collapseAssignments (holdsResult function)
    removeUninitialised names
    return names
  return declared ++ assigned

/-- Variables of the render function's own name, whatever call they hold; patterns around a
call of it collapse too but give no name. -/
def namesakesOf (function : String) : Editing (List String) := do
  let (declared, _) ← Document.batched
    (collapseDeclarations (givesWay function) (isNamesake function))
  let (assigned, _) ← Document.batched do
    let names ← collapseAssignments (isAssigned function)
    if !names.isEmpty then removeUninitialised [function]
    return names
  return declared ++ assigned

/-- Give up the wrapper variables of a render function; yields their names, each once. -/
def resolve (function : Option String) : Pass (List String) := do
  match function with
  | none => return []
  | some function =>
    let direct ← resultsOf function
    let names ← if direct.isEmpty then namesakesOf function else pure direct
    if names.isEmpty then
      Pass.report .noWrapperBindings
        s!"No wrapper bindings found for render function '{function}'"
    return names.eraseDups

end TestMigration.Wrapper
