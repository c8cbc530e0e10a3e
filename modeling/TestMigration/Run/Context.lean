import TestMigration.Settings.Setting
import TestMigration.PathName
import TestMigration.Dom.Snapshot

/-! The context of a run: the file that is converted, where the result goes, the settings and
facts that steps leave for later ones. -/

namespace TestMigration

/-- A fact in a context: a plain value or a captured page. -/
inductive Note where
  | value (v : Value)
  | snapshot (s : Snapshot)
  deriving Inhabited

structure Context where
  sourceFile : String
  targetFile : String
  settings : Settings
  runId : String
  notes : List (String × Note) := []
  deriving Inhabited

namespace Context

/-- A context without facts. Without a target the source itself is the target. -/
def create (source : String) (target : Option String) (settings : Settings) (runId : String) :
    Context where
  sourceFile := source
  targetFile := match target with
    | none | some "" => toString (PathName.ofString source)
    | some t => t
  settings := settings
  runId := runId

/-- Set a fact where it stands, or add it at the end. -/
def withNote (c : Context) (key : String) (note : Note) : Context :=
  { c with
    notes :=
      if c.notes.any (·.1 == key) then c.notes.map fun n => if n.1 == key then (key, note) else n
      else c.notes ++ [(key, note)] }

def note? (c : Context) (key : String) : Option Note := (c.notes.find? (·.1 == key)).map (·.2)

def withSettings (c : Context) (entries : Entries) : Except Failure Context := do
  return { c with settings := ← c.settings.override entries }

/-- The fact under which a captured page is kept. -/
def snapshotKey : String := "dom_snapshot"

/-- The captured page, if there is one; a plain value is read as its markup. -/
def snapshot? (c : Context) : Option Snapshot :=
  match c.note? snapshotKey with
  | none | some (.value .null) => none
  | some (.value v) => some (Snapshot.ofMarkup v.display)
  | some (.snapshot s) => some s

def isDryRun (c : Context) : Value := c.settings.value .dryRun

def shown (c : Context) : String :=
  s!"PipelineContext(source={c.sourceFile}, target={c.targetFile}, run_id={c.runId.take 8}...)"

end Context

end TestMigration
