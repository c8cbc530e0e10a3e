import TestMigration.Failure

/-! Settings of a migration. Each setting holds a plain value as it was given; whether it can be
used is checked when settings come from outside. -/

namespace TestMigration

inductive Setting where
  | testIdAttribute
  | snapshotFile
  | emitSetup
  | targetRoot
  | rootDirectory
  | targetSuffix
  | targetExtension
  | backups
  | backupRoot
  | filePatterns
  | recurse
  | dryRun
  | failFast
  | verbose
  | logLevel
  | maxFileSize
  deriving DecidableEq, Repr, Inhabited

namespace Setting

/-- Every setting, in the order in which settings are listed. -/
def all : List Setting :=
  [testIdAttribute, snapshotFile, emitSetup, targetRoot, rootDirectory, targetSuffix,
    targetExtension, backups, backupRoot, filePatterns, recurse, dryRun, failFast,
    verbose, logLevel, maxFileSize]

theorem mem_all (s : Setting) : s ∈ all := by cases s <;> decide

/-- The name of a setting in files and records. -/
def key : Setting → String
  | testIdAttribute => "test_id_attribute"
  | snapshotFile => "dom_snapshot_file"
  | emitSetup => "emit_dom_setup"
  | targetRoot => "target_root"
  | rootDirectory => "root_directory"
  | targetSuffix => "target_suffix"
  | targetExtension => "target_extension"
  | backups => "backup_originals"
  | backupRoot => "backup_root"
  | filePatterns => "file_patterns"
  | recurse => "recurse_directories"
  | dryRun => "dry_run"
  | failFast => "fail_fast"
  | verbose => "verbose"
  | logLevel => "log_level"
  | maxFileSize => "max_file_size_mb"

def ofKey? (key : String) : Option Setting := all.find? (·.key == key)

end Setting

/-- Patterns of the names of test files. -/
def defaultPatterns : List String :=
  ["*.test.js", "*.test.jsx", "*.test.ts", "*.test.tsx",
    "*.spec.js", "*.spec.jsx", "*.spec.ts", "*.spec.tsx"]

def Setting.default : Setting → Value
  | testIdAttribute => .text "data-testid"
  | snapshotFile | targetRoot | rootDirectory | targetExtension | backupRoot => .null
  | targetSuffix => .text ""
  | filePatterns => .ofStrings defaultPatterns
  | emitSetup | dryRun | failFast | verbose => .bool false
  | backups | recurse => .bool true
  | logLevel => .text "INFO"
  | maxFileSize => .int 10

/-- The value of every setting. -/
structure Settings where
  value : Setting → Value

namespace Settings

instance : Inhabited Settings := ⟨⟨Setting.default⟩⟩

def standard : Settings := ⟨Setting.default⟩

def put (s : Settings) (setting : Setting) (v : Value) : Settings :=
  ⟨fun t => if t = setting then v else s.value t⟩

def toEntries (s : Settings) : Entries := Setting.all.map fun t => (t.key, s.value t)

/-- Set several settings by name; an unknown name is refused. -/
def override (s : Settings) (entries : Entries) : Except Failure Settings :=
  entries.foldlM (fun s (key, v) =>
    match Setting.ofKey? key with
    | some setting => return s.put setting v
    | none => throw (.of .wrongType s!"unexpected setting {Shown.quoted key}")) s

/-! ## Reading settings -/

def flag (s : Settings) (setting : Setting) : Bool := (s.value setting).isTruthy

def text (s : Settings) (setting : Setting) : String := (s.value setting).display

/-- The text of a setting that may be absent; an empty one counts as absent. -/
def text? (s : Settings) (setting : Setting) : Option String :=
  if s.flag setting then some (s.text setting) else none

/-- The file extension of targets, if another than the source's is wanted. -/
def extension? (s : Settings) : Option String :=
  match s.value .targetExtension with
  | .null => none
  | v => some v.display

/-- Patterns of file names. A single text is read as one pattern for each character. -/
def patterns (s : Settings) : List String :=
  match s.value .filePatterns with
  | .list items => items.map Value.display
  | .text t => t.toList.map Char.toString
  | _ => []

/-- Is a file of so many bytes larger than the settings allow? -/
def refusesSize (s : Settings) (bytes : Nat) : Except Failure Bool :=
  let limit (mantissa : Int) (scale : Nat) : Bool :=
    (bytes * scale : Int) > mantissa * 1024 * 1024
  match s.value .maxFileSize with
  | .int n => return limit n 1
  | .bool b => return limit (if b then 1 else 0) 1
  | .decimal m places => return limit m (Nat.pow 10 places)
  | _ => throw (.of .wrongType "the size limit is not a number")

end Settings

end TestMigration
