import TestMigration.Convert.Pass
import TestMigration.Convert.Specifier

/-! Imports: the import of the old library gives way to the new one's, and relative
specifiers in imports, re-exports and mock directives become absolute. -/

namespace TestMigration.Import

/-- The library whose imports are replaced. -/
def legacyModule : String := "enzyme"

def renderLine : String := "import \x7b render, screen \x7d from \"@testing-library/react\";"

def userEventModule : String := "@testing-library/user-event"

def userEventLine : String := "import userEvent from \"" ++ userEventModule ++ "\";"

/-- Lines that set up assertions on the page and the attribute of test ids. -/
def setupLines (attr : Text) : List Text :=
  ["import \"@testing-library/jest-dom\";",
    "import \x7b configure \x7d from \"@testing-library/dom\";",
    Text.ofString "configure(\x7b testIdAttribute: " ++ Quoted.encode attr ++
      Text.ofString " \x7d);"]

/-- Import declarations of a module. -/
def importsFrom (module : String) : Pattern :=
  .mk (some [.importStatement]) none [] none none (some fun h => do
    return (← Handle.valueOf? (← h.moduleLiteral?)) == some (Text.ofString module))

def isImported (module : String) : Looking Bool := do
  return (← (← MatchSet.ofTree (importsFrom module)).first?).isSome

def moduleStatements : Pattern :=
  .mk (some [.importStatement, .exportStatement]) none [] none none
    (some fun h => return (← h.moduleLiteral?).isSome)

/-- Functions whose first argument names a module. -/
def mockDirectives : List String :=
  ["jest.mock", "jest.doMock", "jest.unmock", "jest.requireActual", "jest.requireMock",
    "require"]

def directiveCalls : Pattern :=
  .mk (some [.callExpression]) none
    [(.callee, .mk none none [] none none (some fun h => return mockDirectives.contains (← h.text)))]
    (some [.ofKind .string]) none none

/-- Make a literal absolute if it is a relative specifier; yields how many were changed. -/
def makeAbsolute (cwd : PathName) (file : String) (literal : Handle) : Editing Nat := do
  match ← (literal.literalValue? : Looking _) with
  | none => return 0
  | some specifier =>
    if !Specifier.needsResolving specifier then return 0
    let existing ← (literal.text : Looking _)
    literal.replaceWith (Quoted.requote existing (Specifier.resolve cwd file specifier))
    return 1

/-- The literals that name modules: of imports and re-exports, then of directives. -/
def moduleLiterals : Looking (List Handle) := do
  let sources ← (← findAll moduleStatements).filterMapM (·.moduleLiteral?)
  let arguments ← (← findAll directiveCalls).filterMapM (·.firstArgument?)
  return sources ++ arguments

/-- Make relative specifiers absolute; yields how many were changed. -/
def absolutize (cwd : PathName) (file : String) : Pass Nat := do
  let (count, _) ← (Document.batched do
    let literals ← (moduleLiterals : Looking _)
    let counts ← literals.mapM (makeAbsolute cwd file)
    return counts.foldr (· + ·) 0 : Editing (Nat × Batch))
  return count

/-- Make relative specifiers absolute in a file that has a place. -/
def absolutizeIn (cwd : PathName) (file : Option String) : Pass Unit := do
  match file with
  | some file => let _ ← absolutize cwd file
  | none => return

def reportMissing (legacy : List Handle) : Pass Unit := do
  if legacy.isEmpty then
    Pass.report .missingLegacyImport s!"No import from '{legacyModule}' found"

/-- What stands in place of the old library's imports. -/
def header (legacy : List Handle) (attr : Text) (emitSetup : Bool) : List Text :=
  if legacy.isEmpty then [] else
    Text.ofString renderLine :: if emitSetup then setupLines attr else []

def exchange (legacy : List Handle) (header : List Text) : Editing Unit := do
  legacy.forM (·.remove)
  header.reverse.forM Document.insertAtTop

/-- Replace the imports of the old library by a header; the file's own place is used to make
relative specifiers absolute. Was there an import to replace? -/
def replace (cwd : PathName) (file : Option String) (attr : Text) (emitSetup : Bool) :
    Pass Bool := do
  let legacy ← (findAll (importsFrom legacyModule) : Looking _)
  reportMissing legacy
  let _ ← (Document.batched (exchange legacy (header legacy attr emitSetup)) : Editing _)
  absolutizeIn cwd file
  return !legacy.isEmpty

end TestMigration.Import
