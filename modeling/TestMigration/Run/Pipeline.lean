import TestMigration.Run.Event

/-! Pipelines. Steps run in tasks, tasks in jobs and jobs in a pipeline; each part hands its data
to the next one, and the first error ends them all. What happens is published as events, so that
the start of a part is always followed by its completion. -/

namespace TestMigration

/-- What a run has published, the earliest first, and the state its steps work on. -/
structure Running (σ : Type) where
  published : List Event
  state : σ

/-- Work of a run that can fail; what was done and published before stays. -/
abbrev Work (σ : Type) := EStateM Failure (Running σ)

namespace Work

variable {σ : Type}

def publish (c : Context) (detail : EventDetail) : Work σ Unit :=
  modify fun r => { r with published := r.published ++ [⟨c, detail⟩] }

/-- Work on the state alone. -/
def onState {α : Type} (work : EStateM Failure σ α) : Work σ α := fun r =>
  match work r.state with
  | .ok a s => .ok a { r with state := s }
  | .error e s => .error e { r with state := s }

/-- The answer of some work on a state, with what was published and the state after it. -/
def run {α : Type} (work : Work σ α) (s : σ) : Except Failure α × Running σ :=
  match work ⟨[], s⟩ with
  | .ok a r => (.ok a, r)
  | .error e r => (.error e, r)

end Work

structure Step (σ : Type) where
  name : String
  type : String
  execute : Context → Option Datum → Work σ (Outcome Datum)

structure Task (σ : Type) where
  name : String
  steps : List (Step σ)

/-- `prepare` comes before the job has started: it yields the input of the first task, or an
outcome with which the job is over. -/
structure Job (σ : Type) where
  name : String
  type : String := "Job"
  tasks : List (Task σ)
  prepare : Context → Option Datum → Work σ (Except (Outcome Datum) (Option Datum)) :=
    fun _ input => return .ok input

structure Pipeline (σ : Type) where
  name : String
  jobs : List (Job σ)

/-- The outcome of a sequence: data and facts of the last part and the warnings of all. -/
def Outcome.combine {α : Type} (first : Outcome α) (rest : List (Outcome α)) : Outcome α :=
  let last := rest.getLastD first
  settled last.data ((first :: rest).flatMap (·.warnings)) last.metadata

/-- The outcome of a sequence that may be empty: then its input is its data. -/
def Outcome.ofParts {α : Type} (input : Option α) : List (Outcome α) → Outcome α
  | [] => .success input
  | first :: rest => .combine first rest

/-- What the next part gets: the data of this one or, if it has none, the same as this one. -/
def Outcome.nextInput {α : Type} (r : Outcome α) (input : Option α) : Option α :=
  if r.isError then input else r.data <|> input

/-- Where the failure of a part happened. -/
def placeOfFailure (whole name part failedName index : String) (at_ : Nat) (c : Context) :
    Entries :=
  [(whole, .text name), (part, .text failedName), (index, .int at_), ("context", .text c.runId)]

namespace Step

variable {σ : Type}

/-- Execute a step between its events. A failure is published and becomes an error. -/
def run (s : Step σ) (c : Context) (input : Option Datum) : Work σ (Outcome Datum) := do
  Work.publish c (.stepStarted s.name s.type)
  let outcome ← tryCatch (s.execute c input) fun e => do
    Work.publish c (.error e e.kind.name s.name)
    return .failure e [("step", .text s.name), ("context", .text c.runId)]
  Work.publish c (.stepCompleted s.name s.type outcome)
  return outcome

end Step

namespace Task

variable {σ : Type}

/-- Run the steps from number `done.length` on. -/
def executeFrom (t : Task σ) (c : Context) :
    List (Step σ) → List (Outcome Datum) → Option Datum → Work σ (Outcome Datum)
  | [], done, input => return .ofParts input done
  | s :: rest, done, input => do
    let outcome ← s.run c input
    if outcome.isError then
      let error := outcome.error.getD (.of .runtime s!"Task {t.name} failed at step {s.name}")
      return .failure error
        (placeOfFailure "task" t.name "failed_step" s.name "step_index" done.length c)
    else executeFrom t c rest (done ++ [outcome]) (outcome.nextInput input)

def execute (t : Task σ) (c : Context) (input : Option Datum) : Work σ (Outcome Datum) :=
  t.executeFrom c t.steps [] input

end Task

/-- Context and input of what comes after an outcome: a context takes the place of the context,
other data that of the input. -/
def Outcome.handOn (r : Outcome Datum) (c : Context) (input : Option Datum) :
    Context × Option Datum :=
  match r.data.bind Datum.context? with
  | some c => (c, input)
  | none => (c, r.nextInput input)

namespace Job

variable {σ : Type}

/-- Run the tasks from number `done.length` on; `c₀` is the context of the job. -/
def executeFrom (j : Job σ) (c₀ : Context) :
    List (Task σ) → List (Outcome Datum) → Context → Option Datum → Work σ (Outcome Datum)
  | [], done, _, input => do
    let outcome := Outcome.ofParts input done
    Work.publish c₀ (.jobCompleted j.name j.type outcome)
    return outcome
  | t :: rest, done, c, input => do
    let outcome ← t.execute c input
    if outcome.isError then
      Work.publish c₀ (.jobCompleted j.name j.type outcome)
      let error := outcome.error.getD (.of .runtime s!"Job {j.name} failed at task {t.name}")
      return .failure error
        (placeOfFailure "job" j.name "failed_task" t.name "task_index" done.length c₀)
    else
      let (c, input) := outcome.handOn c input
      executeFrom j c₀ rest (done ++ [outcome]) c input

def execute (j : Job σ) (c : Context) (input : Option Datum) : Work σ (Outcome Datum) := do
  match ← j.prepare c input with
  | .error outcome => return outcome
  | .ok input =>
    Work.publish c (.jobStarted j.name j.type j.tasks.length)
    j.executeFrom c j.tasks [] c input

end Job

namespace Pipeline

variable {σ : Type}

/-- Run the jobs from number `done.length` on; `c₀` is the context of the pipeline. -/
def executeFrom (p : Pipeline σ) (c₀ : Context) :
    List (Job σ) → List (Outcome Datum) → Context → Option Datum → Work σ (Outcome Datum)
  | [], done, _, input => do
    let outcome := Outcome.ofParts input done
    Work.publish c₀ (.pipelineCompleted outcome)
    return outcome
  | j :: rest, done, c, input => do
    let outcome ← j.execute c input
    if outcome.isError then
      Work.publish c₀ (.pipelineCompleted outcome)
      let error := outcome.error.getD (.of .runtime s!"Pipeline {p.name} failed at job {j.name}")
      return .failure error
        (placeOfFailure "pipeline" p.name "failed_job" j.name "job_index" done.length c₀)
    else
      let (c, input) := outcome.handOn c input
      executeFrom p c₀ rest (done ++ [outcome]) c input

def execute (p : Pipeline σ) (c : Context) (input : Option Datum) : Work σ (Outcome Datum) := do
  Work.publish c .pipelineStarted
  p.executeFrom c p.jobs [] c input

end Pipeline

end TestMigration
