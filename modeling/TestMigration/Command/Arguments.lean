import TestMigration.Settings.Check

/-! The command line: a command, its options and its arguments. Options may stand anywhere after
the command; two dashes alone end them. A long option takes its value from the next argument
or after an equals sign; one-letter options may share a dash. -/

namespace TestMigration.Command

/-- What an option on the command line does. -/
inductive Effect where
  /-- The next value is the value of a setting. -/
  | takes (setting : Setting)
  /-- The next value is a pattern of file names. -/
  | takesPattern
  | takesSettingsFile
  | sets (setting : Setting) (b : Bool)
  | recurses (b : Bool)
  | showsDifferences
  | showsNames
  | logsInfo
  | logsDebug
  | showsHelp
  deriving DecidableEq, Repr

def Effect.takesValue : Effect → Bool
  | takes _ | takesPattern | takesSettingsFile => true
  | _ => false

/-- Options of the migration, under their long names. -/
def longOptions : List (String × Effect) :=
  [("--dir", .takes .rootDirectory), ("--file", .takesPattern), ("--recurse", .recurses true),
    ("--no-recurse", .recurses false), ("--test-id-attribute", .takes .testIdAttribute),
    ("--dom-snapshot", .takes .snapshotFile), ("--dom-setup", .sets .emitSetup true),
    ("--target-root", .takes .targetRoot), ("--suffix", .takes .targetSuffix),
    ("--ext", .takes .targetExtension), ("--skip-backup", .sets .backups false),
    ("-sb", .sets .backups false), ("--backup-root", .takes .backupRoot),
    ("--dry-run", .sets .dryRun true), ("-dry", .sets .dryRun true), ("--diff", .showsDifferences),
    ("--list", .showsNames), ("--fail-fast", .sets .failFast true),
    ("--config", .takesSettingsFile), ("--log-level", .takes .logLevel),
    ("--max-file-size", .takes .maxFileSize), ("--verbose", .sets .verbose true),
    ("--info", .logsInfo), ("--debug", .logsDebug), ("--help", .showsHelp)]

/-- Options of the migration with one letter. -/
def shortOptions : List (Char × Effect) :=
  [('d', .takes .rootDirectory), ('f', .takesPattern), ('t', .takes .targetRoot),
    ('c', .takesSettingsFile), ('v', .sets .verbose true)]

def helpOnly : List (String × Effect) := [("--help", .showsHelp)]

/-- What was found on a command line: effects with their values, and arguments. -/
structure Parsed where
  effects : List (Effect × String) := []
  arguments : List String := []
  deriving Repr, Inhabited

private def Parsed.add (p : Parsed) (e : Effect) (value : String) : Parsed :=
  { p with effects := p.effects ++ [(e, value)] }

/-- One-letter options that share a dash. What follows an option with a value is that value. Yields
whether the next argument is still to be taken as the value of the last one. -/
private def shared (short : List (Char × Effect)) :
    Parsed → List Char → Option (Parsed × Option Effect)
  | p, [] => some (p, none)
  | p, c :: rest =>
    match short.find? (·.1 == c) with
    | none => none
    | some (_, e) =>
      if !e.takesValue then shared short (p.add e "") rest
      else if rest.isEmpty then some (p, some e)
      else some (p.add e (String.ofList rest), none)

/-- The option before an equals sign, and the value after it. -/
private def splitOption (argument : String) : String × Option String :=
  match argument.splitOn "=" with
  | name :: first :: more => (name, some ("=".intercalate (first :: more)))
  | _ => (argument, none)

/-- Read options and arguments; none if they cannot be understood. `waiting` is an option whose
value comes next. -/
private def read (long : List (String × Effect)) (short : List (Char × Effect)) :
    Option Effect → Parsed → List String → Option Parsed
  | some _, _, [] => none
  | none, p, [] => some p
  | some e, p, value :: rest => read long short none (p.add e value) rest
  | none, p, argument :: rest =>
    if argument == "--" then some { p with arguments := p.arguments ++ rest }
    else if !argument.startsWith "-" || argument == "-" then
      read long short none { p with arguments := p.arguments ++ [argument] } rest
    else
      let (name, value) := splitOption argument
      match long.find? (·.1 == name), value with
      | some (_, e), some v =>
        if e.takesValue then read long short none (p.add e v) rest else none
      | some (_, e), none =>
        if e.takesValue then read long short (some e) p rest
        else read long short none (p.add e "") rest
      | none, _ =>
        if argument.startsWith "--" then none
        else match shared short p (argument.toList.drop 1) with
          | some (p, waiting) => read long short waiting p rest
          | none => none

/-- A migration as it is asked for. -/
structure Request where
  sources : List String
  settings : Entries := []
  settingsFile : Option String := none
  differences : Bool := false
  names : Bool := false
  logInfo : Bool := false
  logDebug : Bool := false
  deriving Repr, Inhabited

inductive Asked where
  | migrate (r : Request)
  | version
  | writeSettings (file : String)
  | help
  deriving Repr, Inhabited

/-- Take in one option. A number that is none cannot be understood. -/
private def Request.take (r : Request) : Effect × String → Option Request
  | (.takes .maxFileSize, value) => do
    let n ← Setting.wholeOfText? value
    return { r with settings := r.settings.put Setting.maxFileSize.key (.int n) }
  | (.takes setting, value) => some { r with settings := r.settings.put setting.key (.text value) }
  | (.takesPattern, value) =>
    let before := match r.settings.get? Setting.filePatterns.key with
      | some (.list items) => items
      | _ => []
    some { r with
      settings := r.settings.put Setting.filePatterns.key (.list (before ++ [.text value])) }
  | (.takesSettingsFile, value) => some { r with settingsFile := some value }
  | (.sets setting b, _) => some { r with settings := r.settings.put setting.key (.bool b) }
  | (.recurses true, _) =>
    some { r with settings := r.settings.filter (·.1 != Setting.recurse.key) }
  | (.recurses false, _) =>
    some { r with settings := r.settings.put Setting.recurse.key (.bool false) }
  | (.showsDifferences, _) => some { r with differences := true }
  | (.showsNames, _) => some { r with names := true }
  | (.logsInfo, _) => some { r with logInfo := true }
  | (.logsDebug, _) => some { r with logDebug := true }
  | (.showsHelp, _) => some r

/-- Of several values that are given for one setting the last counts. -/
private def lastValues : List (Effect × String) → List (Effect × String)
  | [] => []
  | e :: rest =>
    if (e.1 matches .takes _) && rest.any (·.1 == e.1) then lastValues rest
    else e :: lastValues rest

private def Parsed.wantsHelp (p : Parsed) : Bool := p.effects.any (·.1 == .showsHelp)

/-- The file that settings are written to unless another one is named. -/
def usualSettingsFile : String := "splurge-enzyme-to-rtl.yaml"

/-- What a command line asks for; none if it cannot be understood. -/
def ofArguments : List String → Option Asked
  | [] => none
  | "--help" :: _ => some .help
  | "migrate" :: rest => do
    let p ← read longOptions shortOptions none {} rest
    if p.wantsHelp then return .help
    if p.arguments.isEmpty then none
    let r ← (lastValues p.effects).foldlM Request.take { sources := p.arguments }
    return .migrate r
  | "version" :: rest => do
    let p ← read helpOnly [] none {} rest
    if p.wantsHelp then return .help
    if p.arguments.isEmpty then return .version else none
  | "init-config" :: rest => do
    let p ← read helpOnly [] none {} rest
    if p.wantsHelp then return .help
    match p.arguments with
    | [] => return .writeSettings usualSettingsFile
    | [file] => return .writeSettings file
    | _ => none
  | _ => none

end TestMigration.Command
