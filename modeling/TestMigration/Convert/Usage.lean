import TestMigration.Convert.RenderCall
import TestMigration.Convert.Import

/-! Does a file use the old library? The syntax tree decides, so that a comment or a string
which only mentions a call is no use of it. -/

namespace TestMigration

structure Usage where
  hasImport : Bool
  hasRenderCall : Bool
  deriving DecidableEq, Repr, Inhabited

namespace Usage

def found (u : Usage) : Bool := u.hasImport || u.hasRenderCall

def ofDocument : Looking Usage := do
  let hasImport ← Import.isImported Import.legacyModule
  let hasRenderCall ← RenderCall.primitives.anyM fun name => do
    return (← (← MatchSet.ofTree (.callTo (.exactly name))).first?).isSome
  return ⟨hasImport, hasRenderCall⟩

def ofSource (file : Option String) (source : String) : Except Failure Usage := do
  ofDocument (← Document.ofString file source)

end Usage

end TestMigration
