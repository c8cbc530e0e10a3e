import TestMigration.Run.Context
import TestMigration.Outcome
import TestMigration.Diagnostic
import TestMigration.Decimal
import TestMigration.Tree.Document

/-! Events: what happens during a run, in the order in which it happens. A notice is an event with
the time at which it is told. -/

namespace TestMigration

/-- What steps hand on to each other. -/
inductive Datum where
  | value (v : Value)
  | context (c : Context)
  | document (d : Document)

namespace Datum

def context? : Datum → Option Context
  | context c => some c
  | _ => none

/-- A value as data; the empty value is no data. -/
def ofValue? : Value → Option Datum
  | .null => none
  | v => some (value v)

def text (s : String) : Datum := value (.text s)

/-- The text on its own of data that is plain. -/
def display : Datum → String
  | value v => v.display
  | context c => c.shown
  | document _ => ""

end Datum

inductive EventKind where
  | pipelineStarted
  | pipelineCompleted
  | stepStarted
  | stepCompleted
  | jobStarted
  | jobCompleted
  | transformationCompleted
  | diagnostic
  | error
  deriving DecidableEq, Repr, Inhabited

namespace EventKind

def all : List EventKind :=
  [pipelineStarted, pipelineCompleted, stepStarted, stepCompleted, jobStarted, jobCompleted,
    transformationCompleted, diagnostic, error]

def name : EventKind → String
  | pipelineStarted => "PipelineStartedEvent"
  | pipelineCompleted => "PipelineCompletedEvent"
  | stepStarted => "StepStartedEvent"
  | stepCompleted => "StepCompletedEvent"
  | jobStarted => "JobStartedEvent"
  | jobCompleted => "JobCompletedEvent"
  | transformationCompleted => "TransformationCompletedEvent"
  | diagnostic => "DiagnosticEvent"
  | error => "ErrorEvent"

def ofName? (s : String) : Option EventKind := all.find? (·.name == s)

end EventKind

/-- What happened. The completion of a part carries its outcome. -/
inductive EventDetail where
  | pipelineStarted
  | pipelineCompleted (outcome : Outcome Datum)
  | stepStarted (name type : String)
  | stepCompleted (name type : String) (outcome : Outcome Datum)
  | jobStarted (name type : String) (tasks : Int)
  | jobCompleted (name type : String) (outcome : Outcome Datum)
  | transformationCompleted (renderFunction : Option String) (wrappers : List String)
      (statistics : Entries)
  | diagnostic (finding : Diagnostic)
  | error (failure : Failure) (type component : String)

def EventDetail.kind : EventDetail → EventKind
  | pipelineStarted => .pipelineStarted
  | pipelineCompleted .. => .pipelineCompleted
  | stepStarted .. => .stepStarted
  | stepCompleted .. => .stepCompleted
  | jobStarted .. => .jobStarted
  | jobCompleted .. => .jobCompleted
  | transformationCompleted .. => .transformationCompleted
  | diagnostic .. => .diagnostic
  | error .. => .error

structure Event where
  context : Context
  detail : EventDetail

def Event.kind (e : Event) : EventKind := e.detail.kind

/-- An event, the time since the beginning of time, and the milliseconds that a completed part
took. -/
structure Notice where
  time : Decimal
  event : Event
  elapsed : Decimal := 0
  time_sound : 0 ≤ time.mantissa

namespace Notice

def kind (n : Notice) : EventKind := n.event.kind

def of (time : Decimal) (event : Event) (elapsed : Decimal := 0) : Except Failure Notice :=
  if h : 0 ≤ time.mantissa then .ok ⟨time, event, elapsed, h⟩
  else .error (.of .badValue "Timestamp cannot be negative")

end Notice

end TestMigration
