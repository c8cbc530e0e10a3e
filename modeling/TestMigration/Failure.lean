import TestMigration.Value
import TestMigration.Script.Parse

/-! What can go wrong, from a syntax error to a missing file. A failure has a kind, the text
that is shown for it and structured details. -/

namespace TestMigration

inductive FailureKind where
  | migration
  | parse
  | transformation
  | invalidEdit
  | unsupportedInput
  | stale
  | validation
  | invalidPath
  | configuration
  | runtime
  | badValue
  | wrongType
  | missingKey
  | missingAttribute
  | outOfRange
  | unsupported
  | unencodable
  | undecodable
  | system
  | noSuchFile
  | isDirectory
  | notDirectory
  | fileExists
  deriving DecidableEq, Repr, Inhabited

namespace FailureKind

/-- The name under which a failure is reported in events and logs. -/
def name : FailureKind → String
  | .migration => "MigrationError"
  | .parse => "ParseError"
  | .transformation => "TransformationError"
  | .invalidEdit => "TransformationValidationError"
  | .unsupportedInput => "UnsupportedInputError"
  | .stale => "StalePathError"
  | .validation => "ValidationError"
  | .invalidPath => "PathValidationError"
  | .configuration => "ConfigurationError"
  | .runtime => "RuntimeError"
  | .badValue => "ValueError"
  | .wrongType => "TypeError"
  | .missingKey => "KeyError"
  | .missingAttribute => "AttributeError"
  | .outOfRange => "IndexError"
  | .unsupported => "NotImplementedError"
  | .unencodable => "UnicodeEncodeError"
  | .undecodable => "UnicodeDecodeError"
  | .system => "OSError"
  | .noSuchFile => "FileNotFoundError"
  | .isDirectory => "IsADirectoryError"
  | .notDirectory => "NotADirectoryError"
  | .fileExists => "FileExistsError"

def all : List FailureKind :=
  [migration, parse, transformation, invalidEdit, unsupportedInput, stale, validation, invalidPath,
    configuration, runtime, badValue, wrongType, missingKey, missingAttribute, outOfRange,
    unsupported, unencodable, undecodable, system, noSuchFile, isDirectory, notDirectory,
    fileExists]

def ofName? (s : String) : Option FailureKind := all.find? (·.name == s)

/-- Failures that the migration itself diagnoses; they carry details. -/
def isMigration : FailureKind → Bool
  | .migration | .parse | .transformation | .invalidEdit | .unsupportedInput | .stale
  | .validation | .invalidPath | .configuration => true
  | _ => false

/-- Failures of the file system. -/
def isSystem : FailureKind → Bool
  | .system | .noSuchFile | .isDirectory | .notDirectory | .fileExists => true
  | _ => false

end FailureKind

structure Failure where
  kind : FailureKind
  message : String
  details : Entries := []
  deriving Repr, Inhabited

namespace Failure

/-- The text shown for a failure. A missing key is shown quoted. -/
def shown (f : Failure) : String :=
  if f.kind == .missingKey then Shown.quoted f.message else f.message

def of (kind : FailureKind) (message : String) : Failure := ⟨kind, message, []⟩

private def entry (key : String) : Option Value → Entries
  | none => []
  | some v => [(key, v)]

private def unlessEmpty (key : String) : Option String → Entries
  | none => []
  | some s => if s == "" then [] else [(key, .text s)]

def parse (message : String) (file : Value) (line column : Option Value) : Failure :=
  ⟨.parse, message, ("source_file", file) :: entry "line" line ++ entry "column" column⟩

def syntaxError (file : Option String) (place : Script.Location) : Failure :=
  let file := match file with
    | some name => if name == "" then "<memory>" else name
    | none => "<memory>"
  parse s!"Syntax error at line {place.line}, column {place.column}" (.text file)
    (some (.int place.line)) (some (.int place.column))

def transformation (message : String) (pass node : Option String := none) : Failure :=
  ⟨.transformation, message, unlessEmpty "pass_name" pass ++ unlessEmpty "node_type" node⟩

/-- An edit whose outcome does not parse, with the line at fault. -/
def invalidEdit (place : Script.Location) (snippet : String) : Failure :=
  ⟨.invalidEdit, s!"Edit produced invalid source at line {place.line}",
    [("pass_name", .text "validation"), ("line", .int place.line), ("snippet", .text snippet)]⟩

def unsupportedInput (message : String) (file : Option String) : Failure :=
  ⟨.unsupportedInput, message,
    ("pass_name", .text "render") :: unlessEmpty "source_file" file⟩

def stale (message : String) (expected actual : Nat) : Failure :=
  ⟨.stale, message,
    [("expected_generation", .int expected), ("actual_generation", .int actual)]⟩

def validation (message type : String) (field : Option String) : Failure :=
  ⟨.validation, message, ("validation_type", .text type) :: unlessEmpty "field" field⟩

def invalidPath (message type path : String) : Failure :=
  { validation message type (some path) with kind := .invalidPath }

def configuration (message : String) (key : Option String := none) : Failure :=
  ⟨.configuration, message, unlessEmpty "config_key" key⟩

end Failure

end TestMigration
