import TestMigration.Migration.Stage

/-! The jobs of a migration. The collector turns the source into converted code, and the output
job puts it into the target file. When the target is the source itself, the source is copied
first, unless a copy is already there. -/

namespace TestMigration.Phase

/-- Failures of the disk or of bytes that are no text. -/
def isReadFailure (k : FailureKind) : Bool := k.isSystem || k == .undecodable

/-- The source text: the given one or, if there is none, that of the source file. -/
def sourceText (c : Context) (input : Option Datum) :
    Work Disk (Except (Outcome Datum) (Option Datum)) := do
  if input.isSome then return .ok input
  let path := toString (PathName.ofString c.sourceFile)
  if !(← get).state.exists? path then
    return .error (.failure (.of .noSuchFile s!"Source file not found: {c.sourceFile}"))
  tryCatch (return .ok (some (.text (← Work.onState (Filing.readText path))))) fun e =>
    if isReadFailure e.kind then return .error (.failure e) else throw e

def collector : Job Disk where
  name := "collector"
  type := "CollectorJob"
  tasks := [⟨"conversion",
    [Stage.parse "parse_source", Stage.convert "transform_enzyme", Stage.generate "generate_code"]⟩]
  prepare := sourceText

/-- Copy a file to where its copy belongs, unless a copy is there. -/
def keepCopy (source : String) (directory : Option String) : Filing Unit := do
  let copy := (PathName.ofString source).backup directory
  Filing.ensureDirectory copy.parent
  if !(← get).exists? (toString copy) then Filing.copy source (toString copy)

/-- Is the source overwritten, so that a copy is to be kept? -/
def needsCopy (cwd : PathName) (c : Context) : Bool :=
  let overwrites :=
    (PathName.ofString c.targetFile).resolve cwd == (PathName.ofString c.sourceFile).resolve cwd
  c.settings.flag .backups && overwrites && !c.settings.flag .dryRun

def secureSource (name : String) (c : Context) (input : Option Datum) :
    Work Disk (Except (Outcome Datum) (Option Datum)) := do
  if needsCopy ⟨1, (← get).state.cwd⟩ c then
    tryCatch (do
      Work.onState (keepCopy c.sourceFile (c.settings.text? .backupRoot))
      return .ok input) fun e =>
        if e.kind.isSystem then
          return .error (.failure e [("job", .text name), ("context", .text c.runId)])
        else throw e
  else return .ok input

def output : Job Disk where
  name := "output"
  type := "OutputJob"
  tasks := [⟨"output", [Stage.write "write_output"]⟩]
  prepare := secureSource "output"

end TestMigration.Phase
