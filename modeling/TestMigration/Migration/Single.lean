import TestMigration.Migration.Phase

/-! The migration of one file, and the conversion of a source text that is in no file. What can be
said against the file is the outcome; only a fault of the program itself is a failure. -/

namespace TestMigration.Migration

/-- Failures that become the outcome of a file. -/
def isReported (k : FailureKind) : Bool := k.isMigration || k.isSystem || k == .undecodable

/-- The captured page that the settings name. -/
def loadSnapshot (s : Settings) : Filing (Option Snapshot) :=
  match s.text? .snapshotFile with
  | none => return none
  | some file => do
    return some (Snapshot.ofMarkup (← Filing.readText (toString (PathName.ofString file))))

def withSnapshot (c : Context) : Option Snapshot → Context
  | none => c
  | some page => c.withNote Context.snapshotKey (.snapshot page)

/-- Where the converted copy of a file goes. -/
def targetOf (source : PathName) (s : Settings) : Except Failure PathName :=
  PathName.ofTarget (toString (source.target (s.text? .targetRoot) (s.text .targetSuffix)
    s.extension?))

/-- The context of a file: source and target are checked, and the captured page is read. -/
def contextOf (file : String) (s : Settings) (runId : String) : Filing Context := do
  let source ← MonadExcept.ofExcept (PathName.ofSource file)
  let target ← MonadExcept.ofExcept (targetOf source s)
  return withSnapshot (.create (toString source) (some (toString target)) s runId)
    (← loadSnapshot s)

/-- The text of a source file, unless it is too large. -/
def readSource (path : String) (s : Settings) : Filing String := do
  let size ← Filing.size path
  if ← MonadExcept.ofExcept (s.refusesSize size) then
    throw (.validation s!"File is larger than {s.text .maxFileSize} MB: {path}" "file_size"
      (some path))
  Filing.readText path

def filePipeline : Pipeline Disk := ⟨"migration", [Phase.collector, Phase.output]⟩

/-- Migrate a file. -/
def migrateFile (file : String) (s : Settings) (runId : String) : Work Disk (Outcome Datum) := do
  let begun : Except Failure (Context × String) ← tryCatch (Work.onState do
      let c ← contextOf file s runId
      return .ok (c, ← readSource c.sourceFile s)) fun e =>
    if isReported e.kind then return .error e else throw e
  match begun with
  | .error e => return .failure e
  | .ok (c, source) => filePipeline.execute c (some (.text source))

def sourcePipeline : Pipeline Disk := ⟨"conversion", [Phase.collector]⟩

/-- The name of a source that is in no file. -/
def memoryFile : String := "<memory>.tsx"

/-- Convert a source text. The file's name chooses the dialect and is the place from which relative
imports are meant. -/
def convertSource (source file : String) (s : Settings) (runId : String) :
    Work Disk (Outcome Datum) := do
  let loaded : Except Failure (Option Snapshot) ←
    tryCatch (return .ok (← Work.onState (loadSnapshot s))) fun e =>
      if e.kind.isSystem then return .error e else throw e
  match loaded with
  | .error e => return .failure e
  | .ok page =>
    sourcePipeline.execute (withSnapshot (.create file (some file) s runId) page)
      (some (.text source))

end TestMigration.Migration
