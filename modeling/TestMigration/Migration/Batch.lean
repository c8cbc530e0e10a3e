import TestMigration.Migration.Single
import TestMigration.Migration.Discovery

/-! The migration of many files. Files that fail are told at the end; only when the settings ask
for it does the first of them end the run. -/

namespace TestMigration.Migration

/-- How far a run over many files has come: targets and failed sources, each in the order of the
files, warnings, and the code of each target in the order of first writing. -/
structure Progress where
  written : List String := []
  failed : List (String × String) := []
  warnings : List String := []
  generated : Entries := []
  deriving Repr, Inhabited

namespace Progress

/-- Take in a file that was migrated. -/
def succeed (p : Progress) (outcome : Outcome Datum) : Progress :=
  let target := (outcome.data.map Datum.display).getD "None"
  { p with
    written := p.written ++ [target]
    warnings := p.warnings ++ outcome.warnings
    generated := match outcome.metadata.get? "generated_code" with
      | some code => p.generated.put target code
      | none => p.generated }

/-- Take in a file that failed. A file that fails twice is told once, with its last failure. -/
def fail (p : Progress) (file : String) (error : Option Failure) : Progress :=
  let text := (error.map Failure.shown).getD "None"
  { p with
    failed :=
      if p.failed.any (·.1 == file) then
        p.failed.map fun f => if f.1 == file then (file, text) else f
      else p.failed ++ [(file, text)] }

def failedFiles (p : Progress) : Value := .ofStrings (p.failed.map (·.1))

def failureLines (p : Progress) : List String :=
  p.failed.map fun (file, text) => s!"Failed to migrate {file}: {text}"

/-- The outcome of a run over a list of files. -/
def conclude (p : Progress) : Outcome Value :=
  match p.failed, p.written with
  | (file, text) :: _, [] =>
    .failure (.of .runtime s!"Failed to migrate {file}: {text}") [("failed_files", p.failedFiles)]
  | _, _ =>
    .settled (some (.ofStrings p.written)) (p.warnings ++ p.failureLines)
      [("generated_code", .record p.generated), ("failed_files", p.failedFiles)]

end Progress

/-- Migrate files one after another. -/
def migrateFrom (s : Settings) (runId : String) :
    List String → Progress → Work Disk (Outcome Value)
  | [], p => return p.conclude
  | file :: rest, p => do
    let outcome ← migrateFile file s runId
    if !outcome.isError then migrateFrom s runId rest (p.succeed outcome)
    else if s.flag .failFast then
      return .ended outcome.error [] [("failed_files", .ofStrings [file])]
    else migrateFrom s runId rest (p.fail file outcome.error)

def migrate (files : List String) (s : Settings) (runId : String) : Work Disk (Outcome Value) :=
  migrateFrom s runId files {}

/-! ## Directories -/

/-- What has come of the files of a directory: targets, failed sources and the code of each
target. -/
structure Tally where
  migrated : List String := []
  failed : List String := []
  generated : Entries := []
  deriving Repr, Inhabited

def Tally.conclude (t : Tally) : Outcome Value :=
  let generated := ("generated_code", Value.record t.generated)
  if t.failed.isEmpty then .success (some (.ofStrings t.migrated)) [generated]
  else
    .warning (some (.ofStrings t.migrated)) [s!"Failed to migrate {t.failed.length} files"]
      [("failed_files", .ofStrings t.failed), generated]

def migrateFound (s : Settings) (runId : String) :
    List String → Tally → Work Disk (Outcome Value)
  | [], t => return t.conclude
  | file :: rest, t => do
    let outcome ← migrateFile file s runId
    if outcome.isError then
      let t := { t with failed := t.failed ++ [file] }
      if s.flag .failFast then
        return .ended outcome.error []
          [("failed_files", .ofStrings t.failed), ("migrated_files", .ofStrings t.migrated)]
      else migrateFound s runId rest t
    else
      let target := (outcome.data.map Datum.display).getD "None"
      migrateFound s runId rest
        { t with
          migrated := t.migrated ++ [target]
          generated := match outcome.metadata.get? "generated_code" with
            | some code => t.generated.put target code
            | none => t.generated }

/-- Migrate every file below a directory that uses the old library. -/
def migrateDirectory (directory : String) (s : Settings) (runId : String) :
    Work Disk (Outcome Value) := do
  match PathName.ofSource directory with
  | .error e => return .failure e
  | .ok source =>
    if !(← get).state.isDirectory (toString source) then
      return .failure (.of .badValue s!"Path is not a directory: {directory}")
    let files ← Work.onState (Discovery.below source s)
    if files.isEmpty then return .success (some (.list []))
    migrateFound s runId files {}

end TestMigration.Migration
