import TestMigration.Settings.Layout
import TestMigration.Settings.Check
import TestMigration.Files.Disk
import TestMigration.Outcome

/-! Settings files: reading settings from one, and writing the usual settings into a new one. -/

namespace TestMigration

namespace Layout

/-- A text as it is written in a settings file: as it stands if it is read back as itself, and
between single quotes otherwise. -/
def written (s : String) : String :=
  match ofText? s with
  | some (.text t) => if t == s then s else "'" ++ s.replace "'" "''" ++ "'"
  | _ => "'" ++ s.replace "'" "''" ++ "'"

private def scalarText : Value → String
  | .null => "null"
  | .bool b => if b then "true" else "false"
  | .text s => written s
  | v => v.shown

/-- An entry of a record, on a line of its own; the items of a list follow on lines of theirs. -/
def entryLines (key : String) : Value → List String
  | .list [] => [s!"{key}: []"]
  | .list items => s!"{key}:" :: items.map fun v => s!"- {scalarText v}"
  | v => [s!"{key}: {scalarText v}"]

end Layout

namespace Settings

/-- Settings as a settings file. -/
def fileText (s : Settings) : String :=
  String.join ((s.toEntries.flatMap fun (key, v) => Layout.entryLines key v).map (· ++ "\n"))

/-- The settings in the text of a settings file. -/
def ofText (text : String) : Except Failure Settings :=
  match Layout.ofText? text with
  | none => throw (.configuration "Error loading configuration: the file is not well formed")
  | some (.record entries) => ofEntries entries
  | some _ => throw (.configuration "Configuration file must contain a mapping")

/-- Failures that become the outcome of loading. -/
private def isReported (k : FailureKind) : Bool :=
  k == .configuration || k == .wrongType || k == .badValue

/-- Load settings from a file. -/
def load (file : String) : Filing (Outcome Settings) := do
  let facts : Entries := [("config_file", .text file)]
  let begun : Except Failure String ← tryCatch (return .ok (← Filing.readText file)) fun e =>
    if e.kind == .noSuchFile then
      return .error (.of .noSuchFile s!"Configuration file not found: {file}")
    else if e.kind.isSystem then
      return .error (.configuration s!"Error loading configuration: {e.shown}")
    else throw e
  match begun with
  | .error e => return .failure e facts
  | .ok text =>
    match ofText text with
    | .ok s => return .success (some s)
    | .error e => if isReported e.kind then return .failure e facts else throw e

end Settings

end TestMigration
