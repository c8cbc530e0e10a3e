import TestMigration.Convert.Usage
import TestMigration.Files.Search
import TestMigration.Settings.Setting
import TestMigration.Diagnostic

/-! Which files are to be migrated: those below a directory whose names fit the patterns and
which use the old library. A file that cannot be read or parsed is passed by. -/

namespace TestMigration.Discovery

/-- Does a file use the old library? Larger files than the limit are never looked into. -/
def usesLegacy (path : String) (settings : Settings) : Filing Bool := do
  let size ← Filing.size path
  if ← MonadExcept.ofExcept (settings.refusesSize size) then return false
  let source ← Filing.readText path
  let usage ← MonadExcept.ofExcept (Usage.ofSource (some path) source)
  return usage.found

/-- Failures for which a search passes a file by. -/
def isPassedBy (k : FailureKind) : Bool := k.isSystem || k.isMigration || k == .undecodable

/-- Does a search keep a file? -/
def keeps (settings : Settings) (path : String) : Filing Bool :=
  tryCatch (usesLegacy path settings) fun e =>
    if isPassedBy e.kind then return false else throw e

/-- Drop every entry that stood before. -/
def distinct {α : Type} [BEq α] (xs : List α) : List α :=
  (xs.foldl (fun seen x => if seen.contains x then seen else x :: seen) []).reverse

def partsLE : List String → List String → Bool
  | [], _ => true
  | _ :: _, [] => false
  | a :: as, b :: bs => if a == b then partsLE as bs else decide (a < b)

/-- Files below a directory to migrate, in the order of their names. -/
def below (directory : PathName) (settings : Settings) : Filing (List String) := do
  let disk ← get
  let found ← settings.patterns.mapM fun pattern =>
    MonadExcept.ofExcept (disk.search directory (settings.flag .recurse) pattern)
  let candidates := (distinct found.flatten).mergeSort fun p q => partsLE p.parts q.parts
  (candidates.map toString).filterM (keeps settings)

/-- Files in a directory that patterns stand for, in the order of their paths. -/
def matching (disk : Disk) (directory : String) (patterns : List String) (recurse : Bool) :
    List String :=
  let found := patterns.flatMap fun pattern =>
    let base := if recurse then Disk.joinPath directory anyDepth else directory
    (disk.expand recurse (Disk.joinPath base pattern)).filter disk.isFile
  (distinct found).mergeSort fun a b => decide (a ≤ b)

/-- The files that a list of sources stands for: a file for itself, a directory for the files in
it that use the old library. The root directory is searched first. -/
def resolve (sources : List String) (root : Option String) (settings : Settings) :
    Filing (List String) := do
  let disk ← get
  let roots := match root with
    | some r => if r != "" && disk.isDirectory r then [r] else []
    | none => []
  let files := sources.filter disk.isFile
  let directories := roots ++ sources.filter disk.isDirectory
  let found ← directories.mapM fun directory =>
    (matching disk directory settings.patterns (settings.flag .recurse)).filterM (keeps settings)
  return distinct (files ++ found.flatten)

end TestMigration.Discovery
