import TestMigration.Convert.Guidance
import TestMigration.Convert.Simulation

/-! Suggestions. Every statement that still uses the old library gets a comment above it for
each call that a human has to finish. -/

namespace TestMigration.Suggestion

def statements : Pattern :=
  .ofKinds [.lexicalDeclaration, .variableDeclaration, .expressionStatement, .returnStatement]

/-- The line comments directly above a statement, the nearest first. -/
def commentsAbove (d : Document) (start : Nat) : Except Failure (List String) := do
  return (← d.linesBefore start).takeWhile fun line => line.startsWith "//"

/-- Comments that were put above statements in this batch. -/
abbrev Noted := List (Nat × Text)

/-- Put a comment above the statement around a call, unless it is there already. -/
def annotate (call : Handle) (comment : Text) (noted : Noted) : Editing Noted := do
  match ← (call.closest? statements : Looking _) with
  | none => return noted
  | some statement =>
    let start ← (statement.start : Looking _)
    if noted.contains (start, comment) then return noted
    let above ← commentsAbove (← get) start
    if above.any fun line => Text.ofString line == comment then return noted
    statement.insertBefore comment
    return noted ++ [(start, comment)]

/-- Any name made of word characters and dollar signs. -/
def anyName : TextTest :=
  .fully (.both (.one (.anyOf [.word, .range '$' '$'])) (.many (.one (.anyOf [.word, .range '$' '$']))))

def onWrapper (wrapper : String) (call : Handle) : Looking (Option Text) := do
  match ← call.methodName? with
  | none | some "find" => return none
  | some method =>
    let argument ← (← call.firstArgument?).mapM (·.text)
    return some (Guidance.onMethod wrapper method argument)

def onFind (attr : String) (snapshot : Option Snapshot) (call : Handle) :
    Looking (Option Text) := do
  let selector ← Handle.valueOf? (← call.firstArgument?)
  let argument ← call.argumentText
  return some (← Guidance.onSelector argument selector attr snapshot)

def onSimulate (call : Handle) : Looking (Option Text) := do
  return some (Guidance.onEvent (← call.argumentText))

/-- Put the comment for a call, if it has one, above its statement. -/
def annotateWith (comment : Handle → Looking (Option Text)) (noted : Noted) (call : Handle) :
    Editing Noted := do
  match ← (comment call : Looking _) with
  | some text => annotate call text noted
  | none => return noted

def annotateAll (p : Pattern) (comment : Handle → Looking (Option Text)) (noted : Noted) :
    Editing Noted := do
  (← (findAll p : Looking _)).foldlM (annotateWith comment) noted

/-- Calls of methods of a wrapper. -/
def methodsOf (wrapper : String) : Pattern :=
  .methodCall anyName (some (.identifier (some (.exactly wrapper))))

/-- Annotate methods of wrappers, `find` calls and simulated events. -/
def annotations (wrappers : List String) (attr : String) (snapshot : Option Snapshot) :
    Editing Noted := do
  let noted ← wrappers.foldlM (fun noted wrapper =>
    annotateAll (methodsOf wrapper) (onWrapper wrapper) noted) []
  let noted ← annotateAll Selector.findCalls (onFind attr snapshot) noted
  annotateAll Simulation.simulateCalls onSimulate noted

/-- Add every comment that is missing; yields their number. -/
def add (wrappers : List String) (attr : String) (snapshot : Option Snapshot) : Pass Nat := do
  let (noted, _) ← (Document.batched (annotations wrappers attr snapshot) : Editing _)
  return noted.length

end TestMigration.Suggestion
