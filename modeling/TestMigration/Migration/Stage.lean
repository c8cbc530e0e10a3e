import TestMigration.Convert.Conversion
import TestMigration.Files.Disk
import TestMigration.PathCheck
import TestMigration.Run.Pipeline

/-! The steps of a migration: the source is parsed, converted, written out as text and put into
the target file. -/

namespace TestMigration.Stage

/-- Work that fails on data of the wrong sort. -/
def unusable {α : Type} : Work Disk α :=
  throw (.of .missingAttribute "the data has no such part")

/-- Parse a source text. -/
def parse (name : String) : Step Disk where
  name := name
  type := "ParseSourceStep"
  execute c input := do
    match input with
    | some (.value (.text source)) =>
      match Document.ofString (some c.sourceFile) source with
      | .ok d => return .success (some (.document d))
      | .error e => if e.kind == .parse then return .failure e else throw e
    | _ => unusable

def publishFindings (c : Context) (findings : List Diagnostic) : Work Disk Unit :=
  findings.forM fun finding => Work.publish c (.diagnostic finding)

/-- Convert a document. Findings are published as they are made, and those that warn become the
warnings of the outcome. -/
def convert (name : String) : Step Disk where
  name := name
  type := "TransformEnzymeStep"
  execute c input := do
    match input with
    | some (.document d) =>
      let disk := (← get).state
      let options : ConversionOptions :=
        ⟨⟨1, disk.cwd⟩, c.settings.text .testIdAttribute, c.settings.flag .emitSetup, c.snapshot?⟩
      match Conversion.run options ⟨d, some c.sourceFile, []⟩ with
      | .error e s =>
        publishFindings c s.findings
        if e.kind.isMigration then return .failure e else throw e
      | .ok conversion s =>
        publishFindings c s.findings
        let statistics := conversion.statistics.toEntries
        Work.publish c
          (.transformationCompleted conversion.renderFunction conversion.wrappers statistics)
        return .settled (some (.document s.document)) conversion.warnings
          [("render_function", .ofOption conversion.renderFunction),
            ("wrapper_names", .ofStrings conversion.wrappers), ("statistics", .record statistics)]
    | _ => unusable

/-- The text of a document. -/
def generate (name : String) : Step Disk where
  name := name
  type := "GenerateCodeStep"
  execute _ input := do
    match input with
    | some (.document d) => return .success (some (.text (← MonadExcept.ofExcept d.code)))
    | _ => unusable

/-- Put a text into the target file, or only say so in a dry run. -/
def write (name : String) : Step Disk where
  name := name
  type := "WriteOutputStep"
  execute c input := do
    let code : Value := match input with
      | some (.value v) => v
      | _ => .null
    let facts : Entries := [("target_file", .text c.targetFile), ("generated_code", code)]
    let written := Datum.text c.targetFile
    if c.settings.flag .dryRun then
      return .success (some written) (("dry_run", .bool true) :: facts)
    tryCatch (do
      Work.onState (Filing.ensureParent (.ofString c.targetFile))
      match code with
      | .text t => Work.onState (Filing.writeText c.targetFile t)
      | _ => do
        Work.onState (Filing.writeText c.targetFile "")
        throw (.of .wrongType "only text can be written")
      return .success (some written) facts)
      fun e =>
        if e.kind.isSystem || e.kind == .invalidPath then return .failure e else throw e

end TestMigration.Stage
