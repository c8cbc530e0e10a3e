import TestMigration.Run.Bus

/-! The log of a run: what is written about each event. -/

namespace TestMigration

/-- A handler that writes to the log. A wordy one tells of steps as loudly as of whole runs. -/
structure Logger where
  number : Nat
  verbose : Bool
  deriving DecidableEq, Repr, Inhabited

namespace Logger

/-- The kinds of event that are logged. -/
def kinds : List EventKind :=
  [.pipelineStarted, .pipelineCompleted, .stepStarted, .stepCompleted, .transformationCompleted,
    .diagnostic, .error]

private def statusText (outcome : Outcome Datum) : String :=
  outcome.status.name.map Char.toUpper

private def statisticsText (statistics : Entries) : String :=
  let sorted := statistics.mergeSort fun a b => decide (a.1 ≤ b.1)
  ", ".intercalate (sorted.map fun (key, v) => s!"{key}={v.display}")

/-- The record of an event, if its kind is logged. -/
def record? (l : Logger) (n : Notice) : Option LogRecord :=
  let c := n.event.context
  let took := s!"in {n.elapsed.twoPlaces}ms"
  let stepLevel : LogLevel := if l.verbose then .info else .debug
  match n.event.detail with
  | .pipelineStarted =>
    some ⟨.info, s!"Pipeline started: {c.sourceFile} -> {c.targetFile} (run_id: {c.runId})"⟩
  | .pipelineCompleted outcome => some ⟨.info, s!"Pipeline completed {took}: {statusText outcome}"⟩
  | .stepStarted name type => some ⟨stepLevel, s!"Step started: {name} ({type})"⟩
  | .stepCompleted name _ outcome =>
    some ⟨stepLevel, s!"Step completed {took}: {name} ({statusText outcome})"⟩
  | .transformationCompleted renderFunction wrappers statistics =>
    let renders := renderFunction.getD "None"
    some ⟨.info, s!"Converted {c.sourceFile}: render function={renders}, " ++
      s!"wrappers={(Value.ofStrings wrappers).shown}, {statisticsText statistics}"⟩
  | .diagnostic finding =>
    some ⟨.debug, s!"Diagnostic event ({finding.level.name}, run_id: {c.runId}): " ++
      finding.code.name⟩
  | .error failure type component =>
    some ⟨.error, s!"Error in {component}: {type}: {failure.shown}"⟩
  | .jobStarted .. | .jobCompleted .. => none

end Logger

end TestMigration
