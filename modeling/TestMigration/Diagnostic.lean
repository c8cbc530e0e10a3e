/-! Findings about one file that do not stop its conversion. -/

namespace TestMigration

inductive DiagnosticLevel where
  | info
  | warning
  deriving DecidableEq, Repr, Inhabited

namespace DiagnosticLevel

def name : DiagnosticLevel → String
  | info => "info"
  | warning => "warning"

def ofName? (s : String) : Option DiagnosticLevel :=
  [info, warning].find? (·.name == s)

end DiagnosticLevel

inductive DiagnosticCode where
  | missingLegacyImport
  | missingRenderCall
  | unboundRenderCall
  | noWrapperBindings
  | unconvertedSelector
  | unmappedSimulateEvent
  deriving DecidableEq, Repr, Inhabited

namespace DiagnosticCode

def name : DiagnosticCode → String
  | missingLegacyImport => "missing-legacy-import"
  | missingRenderCall => "missing-render-call"
  | unboundRenderCall => "unbound-render-call"
  | noWrapperBindings => "no-wrapper-bindings"
  | unconvertedSelector => "unconverted-selector"
  | unmappedSimulateEvent => "unmapped-simulate-event"

def ofName? (s : String) : Option DiagnosticCode :=
  [missingLegacyImport, missingRenderCall, unboundRenderCall, noWrapperBindings,
    unconvertedSelector, unmappedSimulateEvent].find? (·.name == s)

end DiagnosticCode

structure Diagnostic where
  code : DiagnosticCode
  message : String
  level : DiagnosticLevel := .warning
  file : Option String := none
  line : Option Int := none
  deriving DecidableEq, Repr, Inhabited

namespace Diagnostic

/-- File and line, code and message. -/
def shown (d : Diagnostic) : String :=
  let file := match d.file with
    | none | some "" => "<memory>"
    | some name => name
  let place := match d.line with
    | none => file
    | some line => s!"{file}:{line}"
  s!"{place}: {d.code.name}: {d.message}"

def warningsOf (ds : List Diagnostic) : List String :=
  (ds.filter (·.level == .warning)).map shown

end Diagnostic

end TestMigration
