import TestMigration.Convert.RenderCall
import TestMigration.Convert.Wrapper
import TestMigration.Convert.Assertion
import TestMigration.Convert.Chain
import TestMigration.Convert.Suggestion

/-! The conversion of one file: every pass in its order, each on what the one before left. The
render function that one pass finds leads another to the wrappers, and the wrappers lead to
the suggestions. -/

namespace TestMigration

structure ConversionOptions where
  /-- Directory against which relative file names are meant. -/
  cwd : PathName
  testIdAttribute : String := "data-testid"
  emitSetup : Bool := false
  snapshot : Option Snapshot := none

/-- What each pass changed. -/
structure Statistics where
  importReplaced : Bool
  selectors : Nat
  textAssertions : Nat
  simulations : Nat
  presenceAssertions : Nat
  chainCalls : Nat
  suggestions : Nat
  deriving DecidableEq, Repr, Inhabited

def Statistics.toEntries (s : Statistics) : Entries :=
  [("legacy_import_replaced", .bool s.importReplaced),
    ("selectors_rewritten", .int s.selectors),
    ("text_assertions_converted", .int s.textAssertions),
    ("simulate_calls_converted", .int s.simulations),
    ("exists_assertions_converted", .int s.presenceAssertions),
    ("chain_calls_removed", .int s.chainCalls),
    ("suggestions_added", .int s.suggestions)]

structure Conversion where
  code : String
  renderFunction : Option String
  wrappers : List String
  findings : List Diagnostic
  statistics : Statistics
  deriving Repr, Inhabited

namespace Conversion

def warnings (c : Conversion) : List String := Diagnostic.warningsOf c.findings

/-- The name of the render function, and the wrappers that held its results. -/
def bindings : Pass (Option String × List String) := do
  let renderFunction ← RenderCall.normalise
  let wrappers ← Wrapper.resolve renderFunction
  return (renderFunction, wrappers)

/-- Every pass, on a file whose own place is given. -/
def passes (o : ConversionOptions) (file : Option String) :
    Pass ((Option String × List String) × Statistics) := do
  let importReplaced ← Import.replace o.cwd file o.testIdAttribute o.emitSetup
  let bound ← bindings
  let selectors ← Selector.convert o.testIdAttribute
  let textAssertions ← Assertion.convertText
  let simulations ← Simulation.convert
  let presenceAssertions ← Assertion.convertPresence
  let chainCalls ← Chain.removeIdle
  let suggestions ← Suggestion.add bound.2 o.testIdAttribute o.snapshot
  return (bound, ⟨importReplaced, selectors, textAssertions, simulations, presenceAssertions,
    chainCalls, suggestions⟩)

/-- What the passes came to, with the text that they left. -/
def finish (bound : Option String × List String) (statistics : Statistics) : Pass Conversion := do
  let s ← get
  return {
    code := ← (s.document.code : Except Failure String)
    renderFunction := bound.1
    wrappers := bound.2
    findings := s.findings
    statistics }

/-- Run every pass. -/
def run (o : ConversionOptions) : Pass Conversion := do
  let (bound, statistics) ← passes o (← get).document.path
  finish bound statistics

/-- Convert a source text. -/
def ofSource (o : ConversionOptions) (source : String) (file : Option String) :
    Except Failure Conversion := do
  match run o ⟨← Document.ofString file source, file, []⟩ with
  | .ok c _ => return c
  | .error e _ => throw e

end Conversion

end TestMigration
