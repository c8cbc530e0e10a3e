import TestMigration.Failure

/-! Outcomes of steps, jobs and whole migrations: the data they yield or the failure that
stopped them, warnings and further facts. A success carries no failure, and an error no
data. -/

namespace TestMigration

inductive Status where
  | success
  | warning
  | error
  | skipped
  deriving DecidableEq, Repr, Inhabited

namespace Status

def name : Status → String
  | success => "success"
  | warning => "warning"
  | error => "error"
  | skipped => "skipped"

def ofName? (s : String) : Option Status :=
  [success, warning, error, skipped].find? (·.name == s)

end Status

structure Outcome (α : Type) where
  status : Status
  data : Option α
  error : Option Failure
  warnings : List String
  metadata : Entries
  success_sound : status = .success → error = none
  error_empty : status = .error → data = none

namespace Outcome

variable {α β : Type}

def success (data : Option α) (metadata : Entries := []) : Outcome α where
  status := .success
  data := data
  error := none
  warnings := []
  metadata := metadata
  success_sound := by simp
  error_empty := by simp

/-- An error, as a rule with the failure behind it. -/
def ended (error : Option Failure) (warnings : List String) (metadata : Entries) :
    Outcome α where
  status := .error
  data := none
  error := error
  warnings := warnings
  metadata := metadata
  success_sound := by simp
  error_empty := by simp

def failure (error : Failure) (metadata : Entries := []) : Outcome α :=
  ended (some error) [] metadata

def warning (data : Option α) (warnings : List String) (metadata : Entries := []) :
    Outcome α where
  status := .warning
  data := data
  error := none
  warnings := warnings
  metadata := metadata
  success_sound := by simp
  error_empty := by simp

/-- Nothing was done. -/
def idle (metadata : Entries) : Outcome α where
  status := .skipped
  data := none
  error := none
  warnings := []
  metadata := metadata
  success_sound := by simp
  error_empty := by simp

/-- Nothing was done; the reason is kept among the facts. -/
def skipped (reason : String) (metadata : Entries := []) : Outcome α :=
  idle (metadata.put "reason" (.text reason))

/-- An outcome of given parts, unless they contradict each other. -/
def checked (status : Status) (data : Option α) (error : Option Failure)
    (warnings : List String) (metadata : Entries) : Except Failure (Outcome α) :=
  if hs : status = .success → error = none then
    if he : status = .error → data = none then
      .ok ⟨status, data, error, warnings, metadata, hs, he⟩
    else .error (.of .badValue "Error results cannot have data")
  else .error (.of .badValue "Success results cannot have errors")

def isError (r : Outcome α) : Bool := r.status == .error

def isSkipped (r : Outcome α) : Bool := r.status == .skipped

/-- Successes and warnings can be used. -/
def isOk (r : Outcome α) : Bool := r.status == .success || r.status == .warning

/-- A success or, if there is something to warn of, a warning. -/
def settled (data : Option α) (warnings : List String) (metadata : Entries) : Outcome α :=
  if warnings.isEmpty then success data metadata else warning data warnings metadata

/-- Change the data of a usable outcome. Errors and skips pass through; no data is an
error. -/
def map (f : α → Except Failure (Option β)) (r : Outcome α) : Outcome β :=
  match r.status with
  | .error => ended r.error r.warnings r.metadata
  | .skipped => idle r.metadata
  | _ =>
    match r.data with
    | none => failure (.of .badValue "Cannot map over None data") r.metadata
    | some a =>
      match f a with
      | .ok b => settled b r.warnings r.metadata
      | .error e => failure e r.metadata

/-- The data, or the failure that stands in its way. -/
def get (r : Outcome α) : Except Failure α :=
  match r.status, r.data with
  | .error, _ => throw (r.error.getD (.of .runtime "Result contains error"))
  | .skipped, _ => throw (.of .runtime "Result was skipped")
  | _, none => throw (.of .runtime "Result contains no data")
  | _, some a => return a

def getD (r : Outcome α) (other : α) : α :=
  if r.isOk then r.data.getD other else other

/-- The failure in words, `None` when there is none. -/
def failureText (r : Outcome α) : String := (r.error.map Failure.shown).getD "None"

/-- An outcome on one line; `showData` shows the data. -/
def shown (showData : Option α → String) (r : Outcome α) : String :=
  match r.status with
  | .success => s!"Result(success, data={showData r.data})"
  | .error => s!"Result(error, error={r.failureText})"
  | .warning =>
    s!"Result(warning, data={showData r.data}, warnings={(Value.ofStrings r.warnings).shown})"
  | .skipped => s!"Result(skipped, metadata={(Value.record r.metadata).shown})"

end Outcome

end TestMigration
