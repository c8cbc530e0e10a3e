import TestMigration.Command.Arguments
import TestMigration.Migration.Batch
import TestMigration.Settings.File
import TestMigration.Text.Difference

/-! Running a command line on a disk: what is printed, and the status at the end. -/

namespace TestMigration.Command

/-- What a command prints, and its status: zero if all is well. A command that breaks off leaves
the failure behind. -/
structure Answer where
  status : Nat := 0
  printed : String := ""
  failure : Option Failure := none
  deriving Repr, Inhabited

namespace Answer

def line (text : String) : Answer := { printed := text ++ "\n" }

def refusal (status : Nat) (text : String) : Answer := { status, printed := text ++ "\n" }

/-- A command that broke off after printing. -/
def broken (printed : String) (e : Failure) : Answer := ⟨1, printed, some e⟩

end Answer

/-- The status of a command line that cannot be understood. -/
def misused : Nat := 2

def versionText : String := "splurge-enzyme-to-rtl 2025.0.1"

def helpText : String :=
  "Usage: splurge-enzyme-to-rtl [OPTIONS] COMMAND [ARGS]...\n\n" ++
  "  Migrate enzyme test suites to React Testing Library\n\n" ++
  "Commands:\n  migrate\n  version\n  init-config\n"

/-- The settings of a request: those of its file, and over them those it names itself. -/
private def settingsOf (r : Request) : Filing (Except Answer Settings) := do
  let base : Except Answer Settings ← match r.settingsFile with
    | none => pure (.ok .standard)
    | some file => do
      let loaded ← Settings.load file
      match loaded.status, loaded.data with
      | .success, some s => pure (.ok s)
      | _, _ =>
        let text := (loaded.error.map Failure.shown).getD "None"
        pure (.error (.refusal 1 s!"Error loading configuration file: {text}"))
  match base with
  | .error a => return .error a
  | .ok base =>
    let s ← MonadExcept.ofExcept (base.override r.settings)
    match s.check with
    | .ok () => return .ok s
    | .error e =>
      if e.kind == .configuration then
        return .error (.refusal 1 s!"Invalid configuration: {e.shown}")
      else throw e

/-- What a dry run shows of one target: its name, the difference to what is there, or all of it. -/
private def shownTarget (r : Request) (target code : String) : Filing String := do
  let path := toString (PathName.ofString target)
  if r.names then return s!"== FILES: {path} ==\n"
  else if r.differences then
    let old ← if (← get).exists? path then Filing.readText path else pure ""
    let difference := Difference.shown s!"orig:{path}" s!"new:{path}" old code
    return s!"== DIFF: {path} ==\n" ++
      (if difference == "" then "<no differences detected>" else difference) ++ "\n"
  else return s!"== RTL: {path} ==\n{code}\n"

/-- Show one target after the other. -/
private def showTargets (r : Request) (status : Nat) : String → Entries → Filing Answer
  | printed, [] => return { status, printed }
  | printed, (target, code) :: rest => do
    let shown : Except Failure String ←
      tryCatch (return .ok (← shownTarget r target code.display)) fun e => return .error e
    match shown with
    | .error e => return .broken printed e
    | .ok text => showTargets r status (printed ++ text) rest

private def entriesOf (o : Outcome Value) (key : String) : Entries :=
  match o.metadata.get? key with
  | some (.record entries) => entries
  | _ => []

private def runMigration (r : Request) (runId : String) : Work Disk Answer := do
  if r.logInfo && r.logDebug then
    return .refusal misused "Error: --info and --debug cannot be used together."
  match ← Work.onState (settingsOf r) with
  | .error a => return a
  | .ok s =>
    let files ← Work.onState (Discovery.resolve r.sources (s.text? .rootDirectory) s)
    if files.isEmpty then return .refusal 1 "No enzyme test files found."
    let outcome ← Migration.migrate files s runId
    if outcome.isError then
      return .refusal 1 s!"Migration failed: {outcome.failureText}"
    let failed := ((outcome.metadata.get? "failed_files").map Value.isTruthy).getD false
    let status := if failed then 1 else 0
    if s.flag .dryRun then
      Work.onState (showTargets r status "" (entriesOf outcome "generated_code"))
    else return { status }

private def writeSettings (file : String) : Filing Answer :=
  tryCatch (do
    Filing.writeText file Settings.standard.fileText
    return .line s!"Configuration file created: {file}") fun e =>
      if e.kind.isSystem then
        return .refusal 1 s!"Failed to create configuration file: {e.shown}"
      else throw e

private def answer (asked : Asked) (runId : String) : Work Disk Answer :=
  match asked with
  | .help => return { printed := helpText }
  | .version => return .line versionText
  | .writeSettings file => Work.onState (writeSettings file)
  | .migrate r => runMigration r runId

/-- Run a command line. -/
def run (arguments : List String) (runId : String) : Work Disk Answer :=
  match ofArguments arguments with
  | none => return { status := misused }
  | some asked => tryCatch (answer asked runId) fun e => return .broken "" e

end TestMigration.Command
