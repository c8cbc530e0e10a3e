import TestMigration.Proofs.Agreement
import TestMigration.Proofs.Protocol

/-! What a run comes to. The warnings of a run that passes are those of its steps, in the order in
which they were performed; a run that fails has the error of its first failing step, and names the
job in which that was. -/

namespace TestMigration

variable {σ : Type} {π : Type → Type} [Part π]

/-! ## Warnings -/

@[simp] theorem Outcome.warnings_ofParts {α : Type} (input : Option α) (done : List (Outcome α)) :
    (ofParts input done).warnings = done.flatMap (·.warnings) := by
  cases done with
  | nil => rfl
  | cons first rest => exact warnings_settled ..

theorem Outcome.status_ofParts {α : Type} (input : Option α) (done : List (Outcome α)) :
    (ofParts input done).status =
      if (ofParts input done).warnings.isEmpty then .success else .warning := by
  rw [warnings_ofParts]
  cases done with
  | nil => rfl
  | cons first rest => exact status_settled ..

theorem Course.warnings_ending {course : Course π σ} (h : course.fails = false)
    (stop : Nat → π σ → Context → Outcome Datum → Outcome Datum) :
    (course.ending stop).warnings = course.acts.flatMap (·.outcome.warnings) ∧
      (course.ending stop).status =
        if (course.ending stop).warnings.isEmpty then .success else .warning := by
  cases course with
  | through ys c input r =>
    refine ⟨?_, Outcome.status_ofParts ..⟩
    change (Outcome.ofParts input (ys.map Act.outcome)).warnings = ys.flatMap (·.outcome.warnings)
    rw [Outcome.warnings_ofParts, List.flatMap_map]
  | stopped => cases h

theorem Act.warnings_task {y : Act Task σ} (h : y.fails = false) :
    y.outcome.warnings = (y.along Task.performed).flatMap (·.outcome.warnings) := by
  rw [outcome_task]
  exact (Course.warnings_ending (y.fails_task ▸ h) _).1

theorem Act.warnings_job {y : Act Job σ} (hy : y.part.IsBase) (h : y.fails = false) :
    y.outcome.warnings = (y.along Job.performed).flatMap (·.outcome.warnings) := by
  have hcourse : (y.along Job.course).Of y.part.tasks := course_of ..
  have hfails : (y.along Job.course).fails = false := fails_job hy ▸ h
  have htasks : ∀ z ∈ (y.along Job.course).acts, z.fails = false := hcourse.passed hfails
  rw [outcome_job hy, (Course.warnings_ending hfails _).1]
  change _ = ((y.along Job.course).acts.flatMap _).flatMap _
  rw [List.flatMap_assoc]
  exact List.flatMap_congr fun z hz => warnings_task (htasks z hz)

namespace Pipeline

variable {p : Pipeline σ} {c : Context} {input : Option Datum} {r : Running σ}

theorem warnings_ending (hp : p.IsBase) (h : (p.course c input r).fails = false) :
    ((p.course c input r).ending (p.stop c)).warnings =
      (p.performed c input r).flatMap (·.outcome.warnings) := by
  have hcourse : (p.course c input r).Of p.jobs := course_of ..
  rw [(Course.warnings_ending h _).1, performed, List.flatMap_assoc]
  refine List.flatMap_congr fun J hJ => Act.warnings_job ?_ (hcourse.passed h J hJ)
  exact hp J.part (hcourse.mem hJ)

end Pipeline

/-! ## The error -/

/-- The error of a step itself: that of its result, or the failure it raised. -/
def Act.error? (y : Act Step σ) : Option Failure :=
  match y.answer with
  | .ok o => o.error
  | .error e => some e

theorem Act.error_step (y : Act Step σ) : y.outcome.error = y.error? := by
  rcases y.outcome_step with h | ⟨e, h, ho⟩
  · rw [error?, h]
  · rw [error?, h, ho]
    rfl

namespace Pipeline

variable {p : Pipeline σ} {c : Context} {input : Option Datum} {r : Running σ}

/-- The error that a task makes of a failed step goes up unchanged. -/
theorem StoppedAt.error {y : Act Step σ} {J : Act Job σ} {T : Act Task σ} (hJ : J.part.IsBase)
    (h : StoppedAt (p.course c input r) y J T) : ((p.course c input r).ending (p.stop c)).error =
      some (y.error?.getD (.of .runtime s!"Task {T.part.name} failed at step {y.part.name}")) := by
  obtain ⟨Js, hjob⟩ := h.job
  obtain ⟨Ts, htask⟩ := h.task
  obtain ⟨Ss, hstep⟩ := h.step
  have hT : T.outcome.error = some (y.error?.getD
      (.of .runtime s!"Task {T.part.name} failed at step {y.part.name}")) := by
    rw [T.outcome_task, hstep, ← y.error_step]
    rfl
  have hJ : J.outcome.error = T.outcome.error := by
    rw [Act.outcome_job hJ, htask]
    change some (T.outcome.error.getD _) = _
    rw [hT]
    rfl
  rw [hjob, ← hT, ← hJ]
  change some (J.outcome.error.getD _) = _
  rw [hJ, hT]
  rfl

/-- The outcome of a run in which the step `y` failed: it has the error of the step or, if that has
none, one that names the step and its task. The facts name the job in which the step was performed,
and its place among the jobs. -/
structure Blames (p : Pipeline σ) (c : Context) (input : Option Datum) (r : Running σ) (y : Act Step σ)
    (o : Outcome Datum) (i : Nat) (J : Act Job σ) (t : Task σ) : Prop where
  act : (p.course c input r).acts[i]? = some J
  job : p.jobs[i]? = some J.part
  task : t ∈ J.part.tasks
  step : y ∈ J.along Job.performed ∧ y.part ∈ t.steps
  status : o.status = .error
  error : o.error =
    some (y.error?.getD (.of .runtime s!"Task {t.name} failed at step {y.part.name}"))
  metadata : o.metadata = [("pipeline", .text p.name), ("failed_job", .text J.part.name),
    ("job_index", .int i), ("context", .text c.runId)]

theorem StoppedAt.blames {y : Act Step σ} {J : Act Job σ} {T : Act Task σ} (hp : p.IsBase)
    (h : StoppedAt (p.course c input r) y J T) :
    ∃ i, Blames p c input r y ((p.course c input r).ending (p.stop c)) i J T.part := by
  have hcourse : (p.course c input r).Of p.jobs := course_of ..
  obtain ⟨before, hlast⟩ := h.performed_job
  obtain ⟨Js, hJ⟩ := h.job
  obtain ⟨Ts, hT⟩ := h.task
  obtain ⟨Ss, hS⟩ := h.step
  have hact : (p.course c input r).acts[Js.length]? = some J := by
    rw [hJ]
    exact List.getElem?_concat_length
  have hjob : p.jobs[Js.length]? = some J.part := by
    obtain ⟨rest, hrest⟩ := hcourse.begins
    rw [← hrest, List.getElem?_append_left ?_, List.getElem?_map, hact]
    · rfl
    · rw [hJ]
      simp [Course.acts]
  have hbase : J.part.IsBase := hp J.part (List.mem_of_getElem? hjob)
  have htask : (J.along Job.course).Of J.part.tasks := course_of ..
  have hstep : (T.along Task.course).Of T.part.steps := course_of ..
  refine ⟨Js.length, hact, hjob, htask.mem ?_, ⟨?_, hstep.mem ?_⟩, ?_, h.error hbase, ?_⟩
  · rw [hT]
    exact List.mem_append_right _ (List.mem_singleton_self T)
  · rw [hlast]
    exact List.mem_append_right _ (List.mem_singleton_self y)
  · rw [hS]
    exact List.mem_append_right _ (List.mem_singleton_self y)
  · rw [hJ]
    rfl
  · rw [hJ]
    rfl

/-- What a run comes to. If no step fails, all steps are performed and the outcome has their warnings
in the order of execution; it is a warning if there are any and a success if not. Otherwise the first
step that fails is to blame. -/
structure Verdict (p : Pipeline σ) (c : Context) (input : Option Datum) (r : Running σ)
    (o : Outcome Datum) : Prop where
  passed : (p.performed c input r).find? Act.fails = none →
    (p.performed c input r).map Act.part = p.steps ∧
      o.warnings = (p.performed c input r).flatMap (·.outcome.warnings) ∧
      o.status = if o.warnings.isEmpty then .success else .warning
  failed : ∀ y, (p.performed c input r).find? Act.fails = some y →
    ∃ i J t, Blames p c input r y o i J t

/-- A pipeline of base jobs comes to such an outcome, whatever its steps do. -/
theorem execute_verdict (hp : p.IsBase) :
    ∃ o r', Leaves (p.execute c input) r (.ok o) r' ∧ p.Verdict c input r o := by
  have hperforms := p.performs hp c input r
  refine ⟨_, _, p.execute_follows hp c input r, ?passed, ?failed⟩
  case passed =>
    intro hnone
    have hpass : ∀ y ∈ p.performed c input r, y.fails = false := fun y hy =>
      Bool.not_eq_true _ ▸ List.find?_eq_none.mp hnone y hy
    have hfails := hperforms.of_passed hpass
    rw [hfails] at hperforms
    exact ⟨hperforms.passes.1, warnings_ending hp hfails, (Course.warnings_ending hfails _).2⟩
  case failed =>
    intro y hfirst
    obtain ⟨J, T, hstop⟩ :=
      stopped_at hp (List.mem_of_find?_eq_some hfirst) (List.find?_some hfirst)
    obtain ⟨i, hblames⟩ := hstop.blames hp
    exact ⟨i, J, T.part, hblames⟩

theorem execute_verdict_unexplained :
    let p : Pipeline Unit := ⟨"p", [
      ⟨"first", "Job", [⟨"t", [.constant "a" (.ok (.warning none ["w"]))]⟩],
        fun _ input => return .ok input⟩,
      ⟨"second", "Job", [⟨"u", [.constant "b" (.ok (.ended none [] [])), .constant "c" (.ok (.idle []))]⟩],
        fun _ input => return .ok input⟩]⟩
    p.IsBase ∧ ∃ o r', Leaves (p.execute (.create "a.js" none .standard "run") none) ⟨[], ()⟩ (.ok o) r' ∧
      o.error = some (.of .runtime "Task u failed at step b") ∧
      o.metadata = [("pipeline", .text "p"), ("failed_job", .text "second"), ("job_index", .int 1),
        ("context", .text "run")] := by
  intro p
  have hp : p.IsBase := by
    intro j hj
    rcases List.mem_pair.mp hj with rfl | rfl <;> rfl
  obtain ⟨o, r', hrun, hverdict⟩ := @execute_verdict Unit p
    (.create "a.js" none .standard "run") none ⟨[], ()⟩ hp
  obtain ⟨i, J, t, hblames⟩ := hverdict.failed _ rfl
  refine ⟨hp, o, r', hrun, ?_⟩
  have hjob := hblames.job
  have htask := hblames.task
  have hstep := hblames.step.2
  match i, hjob with
  | 0, hjob =>
    rw [← Option.some.inj hjob] at htask
    rw [List.mem_singleton.mp htask] at hstep
    have hname : "b" = "a" := congrArg Step.name (List.mem_singleton.mp hstep)
    exact absurd hname (by decide)
  | 1, hjob =>
    have herror := hblames.error
    have hfacts := hblames.metadata
    rw [← Option.some.inj hjob] at htask hfacts
    rw [List.mem_singleton.mp htask] at herror
    exact ⟨herror, hfacts⟩

end Pipeline

end TestMigration
