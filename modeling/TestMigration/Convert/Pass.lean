import TestMigration.Diagnostic
import TestMigration.Tree.Call

/-! Passes. A pass changes the document of one file and reports findings about it; when it
fails, what it changed and reported before stays. -/

namespace TestMigration

/-- `file` is the name under which findings are reported. -/
structure Session where
  document : Document
  file : Option String
  findings : List Diagnostic

abbrev Pass := EStateM Failure Session

namespace Pass

def lift {α : Type} (edit : Editing α) : Pass α := fun s =>
  match edit s.document with
  | .ok a d => .ok a { s with document := d }
  | .error e d => .error e { s with document := d }

instance : MonadLift Editing Pass := ⟨lift⟩

instance : MonadLift Looking Pass := ⟨fun look => lift (Document.looking look)⟩

def report (code : DiagnosticCode) (message : String) (level : DiagnosticLevel := .warning)
    (line : Option Int := none) : Pass Unit := do
  let s ← get
  let finding : Diagnostic := ⟨code, message, level, s.file, line⟩
  set { s with findings := s.findings ++ [finding] }

end Pass

namespace TextTest

/-- One of several whole texts. -/
def oneOf : List String → TextTest
  | [] => .fully .never
  | [s] => .exactly s
  | ss => .fully (ss.foldr (fun s e => .either (s.toList.foldr (fun c e => .both (.literal c) e) .empty) e) .never)

end TextTest

end TestMigration
