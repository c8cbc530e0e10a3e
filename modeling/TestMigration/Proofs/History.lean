import Mathlib.Data.List.Basic
import TestMigration.Proofs.Work

/-! The history of a run. What a step, a task or a job was given and met is an act, and the acts of a
sequence make up its course: all its parts got through, or one failed and was the last. The loops of
tasks, jobs and pipelines come to what their courses say, so that everything else about a run is read
off its history. -/

namespace TestMigration

variable {σ : Type}

/-- After some more events of one context. -/
def Running.publish (r : Running σ) (c : Context) (details : List EventDetail) : Running σ :=
  { r with published := r.published ++ details.map (⟨c, ·⟩) }

theorem Running.publish_publish (r : Running σ) (c : Context) (first rest : List EventDetail) :
    (r.publish c first).publish c rest = r.publish c (first ++ rest) := by
  simp [publish]

theorem leaves_publish (r : Running σ) (c : Context) (detail : EventDetail) :
    Leaves (Work.publish c detail) r (.ok ()) (r.publish c [detail]) := rfl

theorem Leaves.of_pure {ε α σ : Type} (a : α) (s : σ) :
    Leaves (Pure.pure a : EStateM ε σ α) s (.ok a) s := rfl

theorem Leaves.bind_to {ε α β : Type} {m : EStateM ε σ α} {f : α → EStateM ε σ β} {x : Except ε β}
    {a : α} {s t s' : σ} (h : Leaves m s (.ok a) t) (h' : Leaves (f a) t x s') :
    Leaves (m >>= f) s x s' := h.of_bind_ok.trans h'

/-- What stands in a sequence: how it is performed, and what it hands on to the part after it. -/
class Part (π : Type → Type) where
  perform {σ : Type} : π σ → Context → Option Datum → Work σ (Outcome Datum)
  handOn : Outcome Datum → Context → Option Datum → Context × Option Datum

instance : Part Step := ⟨Step.run, fun o c input => (c, o.nextInput input)⟩

instance : Part Task := ⟨Task.execute, Outcome.handOn⟩

instance : Part Job := ⟨Job.execute, Outcome.handOn⟩

/-- A part at work: what it is given, and what was published and done before it. -/
structure Act (π : Type → Type) (σ : Type) where
  part : π σ
  context : Context
  input : Option Datum
  met : Running σ

variable {π : Type → Type}

/-- A function of a part at work. -/
def Act.along {α : Type} (f : π σ → Context → Option Datum → Running σ → α) (y : Act π σ) : α :=
  f y.part y.context y.input y.met

variable [Part π]

/-- The part comes to an outcome, whatever it is given. -/
def Ends (p : π σ) : Prop :=
  ∀ c input r, ∃ o r', Leaves (Part.perform p c input) r (.ok o) r'

namespace Act

def work (y : Act π σ) : Work σ (Outcome Datum) := Part.perform y.part y.context y.input

def outcome (y : Act π σ) : Outcome Datum :=
  match y.work y.met with
  | .ok o _ => o
  | .error e _ => .failure e

/-- What has been published and done after it. -/
def left (y : Act π σ) : Running σ :=
  match y.work y.met with
  | .ok _ r => r
  | .error _ r => r

def fails (y : Act π σ) : Bool := y.outcome.isError

/-- Context and input of the part after it. -/
def next (y : Act π σ) : Context × Option Datum := Part.handOn π y.outcome y.context y.input

theorem outcome_of_leaves {y : Act π σ} {o : Outcome Datum} {r : Running σ}
    (h : Leaves y.work y.met (.ok o) r) : y.outcome = o ∧ y.left = r := by
  unfold outcome left
  rw [show y.work y.met = .ok o r from h]
  exact ⟨rfl, rfl⟩

theorem leaves {y : Act π σ} (h : Ends y.part) : Leaves y.work y.met (.ok y.outcome) y.left := by
  obtain ⟨o, r, hwork⟩ := h y.context y.input y.met
  obtain ⟨rfl, rfl⟩ := outcome_of_leaves hwork
  exact hwork

end Act

/-- How a sequence went: through, up to a last context, input and state, or up to the first part that
failed. -/
inductive Course (π : Type → Type) (σ : Type) where
  | through (acts : List (Act π σ)) (context : Context) (input : Option Datum) (left : Running σ)
  | stopped (passed : List (Act π σ)) (failed : Act π σ)

namespace Course

/-- The acts of a sequence, the one that failed among them. -/
def acts : Course π σ → List (Act π σ)
  | through ys _ _ _ => ys
  | stopped ys z => ys ++ [z]

def left : Course π σ → Running σ
  | through _ _ _ r => r
  | stopped _ z => z.left

/-- The course with one more act before it. -/
def after (y : Act π σ) : Course π σ → Course π σ
  | through ys c input r => through (y :: ys) c input r
  | stopped ys z => stopped (y :: ys) z

def fails : Course π σ → Bool
  | through .. => false
  | stopped .. => true

/-- The outcome that the completion of a sequence tells: that of all its parts, or of the one that
failed. -/
def told : Course π σ → Outcome Datum
  | through ys _ input _ => .ofParts input (ys.map Act.outcome)
  | stopped _ z => z.outcome

/-- The outcome of a sequence, where `stop` is the error that it makes of a failed part. -/
def ending (stop : Nat → π σ → Context → Outcome Datum → Outcome Datum) :
    Course π σ → Outcome Datum
  | stopped ys z => stop ys.length z.part z.context z.outcome
  | course => course.told

omit [Part π] in
@[simp] theorem acts_after (y : Act π σ) (course : Course π σ) :
    (course.after y).acts = y :: course.acts := by
  cases course <;> rfl

@[simp] theorem left_after (y : Act π σ) (course : Course π σ) :
    (course.after y).left = course.left := by
  cases course <;> rfl

end Course

omit [Part π] in
@[simp] theorem Course.fails_after (y : Act π σ) (course : Course π σ) :
    (course.after y).fails = course.fails := by
  cases course <;> rfl

/-- Parts one after the other, up to the first that fails. -/
def course : List (π σ) → Context → Option Datum → Running σ → Course π σ
  | [], c, input, r => .through [] c input r
  | p :: rest, c, input, r =>
    let y : Act π σ := ⟨p, c, input, r⟩
    if y.fails then .stopped [] y else (course rest y.next.1 y.next.2 y.left).after y

section Course

variable {parts : List (π σ)} {c : Context} {input : Option Datum} {r : Running σ}

theorem course_cons_of_fails {p : π σ} {rest : List (π σ)}
    (h : (⟨p, c, input, r⟩ : Act π σ).fails = true) :
    course (p :: rest) c input r = .stopped [] ⟨p, c, input, r⟩ := by
  unfold course
  exact if_pos h

theorem course_cons {p : π σ} {rest : List (π σ)} {y : Act π σ} (hy : y = ⟨p, c, input, r⟩)
    (h : y.fails = false) :
    course (p :: rest) c input r = (course rest y.next.1 y.next.2 y.left).after y := by
  subst hy
  rw [course.eq_2]
  simp only [h, Bool.false_eq_true, if_false]

/-- An invariant of courses: it holds where nothing is left to do and where a part fails, and an act
that passes keeps it. -/
theorem course_induction {P : List (π σ) → Context → Option Datum → Running σ → Course π σ → Prop}
    (done : ∀ c input r, P [] c input r (.through [] c input r))
    (fail : ∀ (y : Act π σ) rest, y.fails = true →
      P (y.part :: rest) y.context y.input y.met (.stopped [] y))
    (pass : ∀ (y : Act π σ) rest course', y.fails = false →
      P rest y.next.1 y.next.2 y.left course' →
      P (y.part :: rest) y.context y.input y.met (course'.after y))
    (parts : List (π σ)) (c : Context) (input : Option Datum) (r : Running σ) :
    P parts c input r (course parts c input r) := by
  induction parts generalizing c input r with
  | nil => exact done c input r
  | cons p rest ih =>
    cases h : (⟨p, c, input, r⟩ : Act π σ).fails with
    | true =>
      rw [course_cons_of_fails h]
      exact fail ⟨p, c, input, r⟩ rest h
    | false =>
      rw [course_cons rfl h]
      exact pass ⟨p, c, input, r⟩ rest _ h (ih _ _ _)

/-- What a course shows of its acts: the parts performed come first in the sequence; they are all of
it and none has failed, or the last of them is the only one that has. -/
inductive Course.Of (parts : List (π σ)) : Course π σ → Prop where
  | through {ys : List (Act π σ)} {c : Context} {input : Option Datum} {r : Running σ}
      (all : ys.map Act.part = parts) (passed : ∀ y ∈ ys, y.fails = false) :
      Of parts (.through ys c input r)
  | stopped {ys : List (Act π σ)} {z : Act π σ} (first : (ys ++ [z]).map Act.part <+: parts)
      (passed : ∀ y ∈ ys, y.fails = false) (failed : z.fails = true) : Of parts (.stopped ys z)

theorem Course.Of.after {rest : List (π σ)} {y : Act π σ} {course : Course π σ}
    (hy : y.fails = false) (h : course.Of rest) : (course.after y).Of (y.part :: rest) := by
  cases h with
  | through all passed =>
    refine .through ?_ (List.forall_mem_cons.mpr ⟨hy, passed⟩)
    rw [List.map_cons, all]
  | stopped first passed failed =>
    exact .stopped (List.prefix_cons_inj _ |>.mpr first) (List.forall_mem_cons.mpr ⟨hy, passed⟩)
      failed

theorem course_of (parts : List (π σ)) (c : Context) (input : Option Datum) (r : Running σ) :
    (course parts c input r).Of parts := by
  refine course_induction (P := fun parts _ _ _ course => course.Of parts) ?_ ?_ ?_ parts c input r
  · intro c input r
    exact .through rfl nofun
  · intro y rest hfails
    refine .stopped ?_ nofun hfails
    exact List.prefix_append [y.part] rest
  · intro y rest course' hy h
    exact h.after hy

theorem Course.Of.begins {course : Course π σ} (h : course.Of parts) :
    course.acts.map Act.part <+: parts := by
  cases h with
  | through all => exact all ▸ List.prefix_rfl
  | stopped first => exact first

theorem Course.Of.mem {course : Course π σ} (h : course.Of parts) {y : Act π σ}
    (hy : y ∈ course.acts) : y.part ∈ parts := h.begins.mem (List.mem_map_of_mem hy)

theorem Course.Of.all {course : Course π σ} (h : course.Of parts)
    (hpass : ∀ y ∈ course.acts, y.fails = false) : course.acts.map Act.part = parts := by
  cases h with
  | through all => exact all
  | stopped _ _ failed =>
    rw [hpass _ (List.mem_append_right _ (List.mem_singleton_self _))] at failed
    cases failed

theorem Course.Of.passed {course : Course π σ} (h : course.Of parts) (hfails : course.fails = false) :
    ∀ y ∈ course.acts, y.fails = false := by
  cases h with
  | through _ passed => exact passed
  | stopped => cases hfails

/-- What a loop comes to after the acts of a course, with the outcomes of earlier ones in `done`. -/
def Course.Finishes (passed : List (Outcome Datum) → Option Datum → Work σ (Outcome Datum))
    (failed : Nat → π σ → Context → Outcome Datum → Work σ (Outcome Datum)) (done : List (Outcome Datum))
    (x : Except Failure (Outcome Datum)) (s : Running σ) : Course π σ → Prop
  | .through ys _ input r => Leaves (passed (done ++ ys.map Act.outcome) input) r x s
  | .stopped ys z =>
    Leaves (failed (done.length + ys.length) z.part z.context z.outcome) z.left x s

/-- A loop that performs a part, ends with `failed` if that was an error and with `passed` when no
part is left goes as the course of its parts. -/
theorem loop_finishes {loop : List (π σ) → List (Outcome Datum) → Context → Option Datum →
      Work σ (Outcome Datum)} {passed : List (Outcome Datum) → Option Datum → Work σ (Outcome Datum)}
    (failed : Nat → π σ → Context → Outcome Datum → Work σ (Outcome Datum))
    (hnil : ∀ done c input, loop [] done c input = passed done input)
    (hcons : ∀ p rest done c input, loop (p :: rest) done c input = Part.perform p c input >>=
      fun o => if o.isError then failed done.length p c o
        else loop rest (done ++ [o]) (Part.handOn π o c input).1 (Part.handOn π o c input).2)
    {x : Except Failure (Outcome Datum)} {s : Running σ} {parts : List (π σ)}
    {done : List (Outcome Datum)} (hends : ∀ p ∈ parts, Ends p)
    (h : (course parts c input r).Finishes passed failed done x s) :
    Leaves (loop parts done c input) r x s := by
  refine course_induction (P := fun parts c input r course => (∀ p ∈ parts, Ends p) → ∀ done,
    course.Finishes passed failed done x s → Leaves (loop parts done c input) r x s) ?_ ?_ ?_
    parts c input r hends done h
  · intro c input r _ done h
    rw [hnil]
    rwa [Course.Finishes, List.map_nil, List.append_nil] at h
  · intro y rest hfails hends done h
    rw [hcons]
    refine (y.leaves (hends y.part (List.mem_cons_self ..))).bind_to ?_
    rw [if_pos (show y.outcome.isError = true from hfails)]
    exact h
  · intro y rest course' hpass ih hends done h
    rw [hcons]
    refine (y.leaves (hends y.part (List.mem_cons_self ..))).bind_to ?_
    rw [show y.outcome.isError = false from hpass, if_neg Bool.false_ne_true]
    refine ih (fun p hp => hends p (List.mem_cons_of_mem _ hp)) (done ++ [y.outcome]) ?_
    cases course' with
    | through ys c' input' r' =>
      rw [Course.Finishes, List.append_assoc]
      exact h
    | stopped ys z =>
      rw [Course.Finishes, List.length_append, Nat.add_assoc, Nat.add_comm [y.outcome].length]
      exact h

/-- A loop that tells the outcome of its last part or of all of them comes to the ending of their
course. -/
theorem loop_leaves (loop : List (π σ) → List (Outcome Datum) → Context → Option Datum →
      Work σ (Outcome Datum)) (tell : Outcome Datum → Work σ Unit)
    {stop : Nat → π σ → Context → Outcome Datum → Outcome Datum}
    (hnil : ∀ done c input, loop [] done c input = (do
      tell (.ofParts input done)
      return .ofParts input done))
    (hcons : ∀ p rest done c input, loop (p :: rest) done c input = (do
      let o ← Part.perform p c input
      if o.isError then
        tell o
        return stop done.length p c o
      else loop rest (done ++ [o]) (Part.handOn π o c input).1 (Part.handOn π o c input).2))
    {parts : List (π σ)} {s : Running σ} (hends : ∀ p ∈ parts, Ends p)
    (htell : Leaves (tell (course parts c input r).told) (course parts c input r).left (.ok ()) s) :
    Leaves (loop parts [] c input) r (.ok ((course parts c input r).ending stop)) s := by
  refine loop_finishes (fun i p c o => do tell o; return stop i p c o) hnil hcons hends ?_
  revert htell
  generalize course parts c input r = course
  intro htell
  cases course with
  | through ys c' input' r' => exact htell.bind_to (f := fun _ => pure _) (.of_pure ..)
  | stopped ys z =>
    rw [Course.Finishes, List.length_nil, Nat.zero_add]
    exact htell.bind_to (.of_pure ..)

end Course

/-! ## Steps -/

namespace Act

/-- The step has been announced. -/
def begun (y : Act Step σ) : Running σ :=
  y.met.publish y.context [.stepStarted y.part.name y.part.type]

/-- What the work of the step itself answers. -/
def answer (y : Act Step σ) : Except Failure (Outcome Datum) :=
  match y.part.execute y.context y.input y.begun with
  | .ok o _ => .ok o
  | .error e _ => .error e

/-- What that work leaves. -/
def worked (y : Act Step σ) : Running σ :=
  match y.part.execute y.context y.input y.begun with
  | .ok _ r => r
  | .error _ r => r

theorem execute_leaves (y : Act Step σ) :
    Leaves (y.part.execute y.context y.input) y.begun y.answer y.worked := by
  unfold Leaves answer worked
  cases y.part.execute y.context y.input y.begun <;> rfl

/-- The error that a failure becomes. -/
def converted (y : Act Step σ) (e : Failure) : Outcome Datum :=
  .failure e [("step", .text y.part.name), ("context", .text y.context.runId)]

/-- What is published when a step raises a failure, and nothing else. -/
def report (y : Act Step σ) : List EventDetail :=
  match y.answer with
  | .ok _ => []
  | .error e => [.error e e.kind.name y.part.name]

theorem run_leaves (y : Act Step σ) : ∃ o, (y.answer = .ok o ∨ ∃ e, y.answer = .error e ∧
    o = y.converted e) ∧ Leaves (y.part.run y.context y.input) y.met (.ok o)
      (y.worked.publish y.context (y.report ++ [.stepCompleted y.part.name y.part.type o])) := by
  have hwork := y.execute_leaves
  unfold report
  cases h : y.answer with
  | ok o =>
    rw [h] at hwork
    refine ⟨o, .inl rfl, (leaves_publish ..).bind_to ?_⟩
    refine Leaves.bind_to (hwork.tryCatch_ok _) ?_
    exact (leaves_publish ..).bind_to rfl
  | error e =>
    rw [h] at hwork
    refine ⟨y.converted e, .inr ⟨e, rfl, rfl⟩, (leaves_publish ..).bind_to ?_⟩
    refine Leaves.bind_to (hwork.tryCatch_error ((leaves_publish ..).bind_to rfl)) ?_
    refine (leaves_publish ..).bind_to ?_
    rw [Running.publish_publish]
    rfl

end Act

theorem Step.ends (s : Step σ) : Ends s := by
  intro c input r
  obtain ⟨o, -, hrun⟩ := Act.run_leaves ⟨s, c, input, r⟩
  exact ⟨o, _, hrun⟩

/-- A step comes to its answer, or to an error with the failure it raised. -/
theorem Act.outcome_step (y : Act Step σ) :
    y.answer = .ok y.outcome ∨ ∃ e, y.answer = .error e ∧ y.outcome = y.converted e := by
  obtain ⟨o, ho, hrun⟩ := y.run_leaves
  obtain ⟨rfl, -⟩ := y.outcome_of_leaves hrun
  exact ho

theorem Act.left_step (y : Act Step σ) : y.left =
    y.worked.publish y.context (y.report ++ [.stepCompleted y.part.name y.part.type y.outcome]) := by
  obtain ⟨o, -, hrun⟩ := y.run_leaves
  obtain ⟨rfl, hleft⟩ := y.outcome_of_leaves hrun
  exact hleft

/-! ## Tasks -/

namespace Task

/-- The error that a failed step makes of its task. -/
def stop (t : Task σ) (i : Nat) (s : Step σ) (c : Context) (o : Outcome Datum) : Outcome Datum :=
  .failure (o.error.getD (.of .runtime s!"Task {t.name} failed at step {s.name}"))
    (placeOfFailure "task" t.name "failed_step" s.name "step_index" i c)

def course (t : Task σ) : Context → Option Datum → Running σ → Course Step σ :=
  TestMigration.course t.steps

/-- The steps that a task performs. -/
def performed (t : Task σ) (c : Context) (input : Option Datum) (r : Running σ) :
    List (Act Step σ) := (t.course c input r).acts

/-- A task goes as the course of its steps. -/
theorem execute_follows (t : Task σ) (c : Context) (input : Option Datum) (r : Running σ) :
    Leaves (t.execute c input) r (.ok ((t.course c input r).ending t.stop))
      (t.course c input r).left := by
  refine loop_leaves (fun steps done c input => t.executeFrom c steps done input)
    (fun _ => pure ()) (fun _ _ _ => rfl) ?_ (fun s _ => s.ends) rfl
  intro s rest done c input
  rfl

theorem ends (t : Task σ) : Ends t := fun c input r => ⟨_, _, t.execute_follows c input r⟩

end Task

theorem Act.outcome_task (y : Act Task σ) : y.outcome = (y.along Task.course).ending y.part.stop :=
  (y.outcome_of_leaves (y.part.execute_follows y.context y.input y.met)).1

theorem Act.left_task (y : Act Task σ) : y.left = (y.along Task.course).left :=
  (y.outcome_of_leaves (y.part.execute_follows y.context y.input y.met)).2

/-! ## Jobs -/

namespace Job

/-- The job begins with its tasks and the input it is given. -/
def IsBase (j : Job σ) : Prop := j.prepare = fun _ input => return .ok input

/-- The error that a failed task makes of its job, which began in the context `c₀`. -/
def stop (j : Job σ) (c₀ : Context) (i : Nat) (t : Task σ) (_ : Context) (o : Outcome Datum) :
    Outcome Datum :=
  .failure (o.error.getD (.of .runtime s!"Job {j.name} failed at task {t.name}"))
    (placeOfFailure "job" j.name "failed_task" t.name "task_index" i c₀)

/-- The course of its tasks, after its start has been published. -/
def course (j : Job σ) (c : Context) (input : Option Datum) (r : Running σ) : Course Task σ :=
  TestMigration.course j.tasks c input (r.publish c [.jobStarted j.name j.type j.tasks.length])

/-- The steps that a job performs. -/
def performed (j : Job σ) (c : Context) (input : Option Datum) (r : Running σ) :
    List (Act Step σ) := (j.course c input r).acts.flatMap (Act.along Task.performed)

/-- A base job goes as the course of its tasks, and its completion is published. -/
theorem execute_follows {j : Job σ} (hj : j.IsBase) (c : Context) (input : Option Datum)
    (r : Running σ) : Leaves (j.execute c input) r (.ok ((j.course c input r).ending (j.stop c)))
      ((j.course c input r).left.publish c
        [.jobCompleted j.name j.type (j.course c input r).told]) := by
  have hprepare : Leaves (j.prepare c input) r (.ok (.ok input)) r := by
    rw [hj]
    rfl
  refine hprepare.bind_to ((leaves_publish ..).bind_to ?_)
  refine loop_leaves (j.executeFrom c)
    (fun o => Work.publish c (.jobCompleted j.name j.type o)) (fun _ _ _ => rfl) ?_
    (fun t _ => t.ends) (leaves_publish ..)
  intro t rest done c' input
  rfl

theorem ends {j : Job σ} (hj : j.IsBase) : Ends j :=
  fun c input r => ⟨_, _, execute_follows hj c input r⟩

end Job

theorem Act.outcome_job {y : Act Job σ} (hy : y.part.IsBase) :
    y.outcome = (y.along Job.course).ending (y.part.stop y.context) :=
  (y.outcome_of_leaves (Job.execute_follows hy y.context y.input y.met)).1

theorem Act.left_job {y : Act Job σ} (hy : y.part.IsBase) :
    y.left = (y.along Job.course).left.publish y.context
      [.jobCompleted y.part.name y.part.type (y.along Job.course).told] :=
  (y.outcome_of_leaves (Job.execute_follows hy y.context y.input y.met)).2

/-! ## Pipelines -/

namespace Pipeline

/-- All jobs begin with their tasks. -/
def IsBase (p : Pipeline σ) : Prop := ∀ j ∈ p.jobs, j.IsBase

/-- The error that a failed job makes of its pipeline, which began in the context `c₀`. -/
def stop (p : Pipeline σ) (c₀ : Context) (i : Nat) (j : Job σ) (_ : Context) (o : Outcome Datum) :
    Outcome Datum :=
  .failure (o.error.getD (.of .runtime s!"Pipeline {p.name} failed at job {j.name}"))
    (placeOfFailure "pipeline" p.name "failed_job" j.name "job_index" i c₀)

/-- The course of its jobs, after its start has been published. -/
def course (p : Pipeline σ) (c : Context) (input : Option Datum) (r : Running σ) : Course Job σ :=
  TestMigration.course p.jobs c input (r.publish c [.pipelineStarted])

/-- The steps that a pipeline performs. -/
def performed (p : Pipeline σ) (c : Context) (input : Option Datum) (r : Running σ) :
    List (Act Step σ) := (p.course c input r).acts.flatMap (Act.along Job.performed)

/-- A pipeline of base jobs goes as the course of its jobs, and its completion is published. -/
theorem execute_follows {p : Pipeline σ} (hp : p.IsBase) (c : Context) (input : Option Datum)
    (r : Running σ) :
    Leaves (p.execute c input) r (.ok ((p.course c input r).ending (p.stop c)))
      ((p.course c input r).left.publish c [.pipelineCompleted (p.course c input r).told]) := by
  refine (leaves_publish ..).bind_to ?_
  refine loop_leaves (p.executeFrom c)
    (fun o => Work.publish c (.pipelineCompleted o)) (fun _ _ _ => rfl) ?_
    (fun j hj => Job.ends (hp j hj)) (leaves_publish ..)
  intro j rest done c' input
  rfl

end Pipeline

/-! ## The steps of a run -/

/-- Acts that perform some steps in their order: all of them, and then none fails, or the first ones,
and then the last of these fails and no other. -/
inductive Performs (steps : List (Step σ)) : List (Act Step σ) → Bool → Prop where
  | through {ys : List (Act Step σ)} (all : ys.map Act.part = steps)
      (passed : ∀ y ∈ ys, y.fails = false) : Performs steps ys false
  | stopped {ys : List (Act Step σ)} {z : Act Step σ} (first : (ys ++ [z]).map Act.part <+: steps)
      (passed : ∀ y ∈ ys, y.fails = false) (failed : z.fails = true) :
      Performs steps (ys ++ [z]) true

theorem Course.Of.performs {steps : List (Step σ)} {course : Course Step σ} (h : course.Of steps) :
    Performs steps course.acts course.fails := by
  cases h with
  | through all passed => exact .through all passed
  | stopped first passed failed => exact .stopped first passed failed

omit [Part π] in
theorem map_part_flatMap {steps : π σ → List (Step σ)} {inner : Act π σ → List (Act Step σ)}
    {ys : List (Act π σ)} (h : ∀ y ∈ ys, (inner y).map Act.part = steps y.part) :
    (ys.flatMap inner).map Act.part = (ys.map Act.part).flatMap steps := by
  rw [List.map_flatMap, List.flatMap_map]
  exact List.flatMap_congr h

theorem Performs.passes {steps : List (Step σ)} {ys : List (Act Step σ)} (h : Performs steps ys false) :
    ys.map Act.part = steps ∧ ∀ y ∈ ys, y.fails = false := by
  cases h with
  | through all passed => exact ⟨all, passed⟩

theorem Performs.stops {steps : List (Step σ)} {zs : List (Act Step σ)} (h : Performs steps zs true) :
    ∃ ys z, zs = ys ++ [z] ∧ (ys ++ [z]).map Act.part <+: steps ∧ (∀ y ∈ ys, y.fails = false) ∧
      z.fails = true := by
  cases h with
  | stopped first passed failed => exact ⟨_, _, rfl, first, passed, failed⟩

/-- The steps of a course are those of its parts, one part after the other. -/
theorem Performs.flatMap {parts : List (π σ)} {course : Course π σ} (h : course.Of parts)
    {steps : π σ → List (Step σ)} {inner : Act π σ → List (Act Step σ)}
    (hinner : ∀ y ∈ course.acts, Performs (steps y.part) (inner y) y.fails) :
    Performs (parts.flatMap steps) (course.acts.flatMap inner) course.fails := by
  have hpassed : ∀ y ∈ course.acts, y.fails = false →
      (inner y).map Act.part = steps y.part ∧ ∀ z ∈ inner y, z.fails = false := by
    intro y hy hfails
    have hp := hinner y hy
    rw [hfails] at hp
    exact hp.passes
  cases h with
  | @through ys c input r all passed =>
    refine .through ?_ ?_
    · rw [← all]
      exact map_part_flatMap fun y hy => (hpassed y hy (passed y hy)).1
    · intro z hz
      obtain ⟨y, hy, hz⟩ := List.mem_flatMap.mp hz
      exact (hpassed y hy (passed y hy)).2 z hz
  | @stopped ys z first passed failed =>
    have hys := fun y hy => hpassed y (List.mem_append_left _ hy) (passed y hy)
    have hz := hinner z (List.mem_append_right _ (List.mem_singleton_self z))
    obtain ⟨rest, hparts⟩ := first
    have hsteps : parts.flatMap steps =
        (ys.flatMap inner).map Act.part ++ (steps z.part ++ rest.flatMap steps) := by
      rw [← hparts, map_part_flatMap fun y hy => (hys y hy).1]
      simp
    have hacts : (Course.stopped ys z).acts.flatMap inner = ys.flatMap inner ++ inner z := by
      simp [Course.acts]
    rw [failed] at hz
    obtain ⟨ss, s, hss, first', passed', failed'⟩ := hz.stops
    rw [hacts, hsteps, hss, ← List.append_assoc (ys.flatMap inner)]
    refine .stopped ?_ ?_ failed'
    · rw [List.append_assoc, List.map_append]
      exact List.prefix_append_right_inj _ |>.mpr (first'.trans (List.prefix_append _ _))
    · intro y hy
      rcases List.mem_append.mp hy with hy | hy
      · obtain ⟨w, hw, hy⟩ := List.mem_flatMap.mp hy
        exact (hys w hw).2 y hy
      · exact passed' y hy

@[simp] theorem Outcome.isError_ofParts {α : Type} (input : Option α) (done : List (Outcome α)) :
    (ofParts input done).isError = false := by
  cases done with
  | nil => rfl
  | cons first rest => exact isError_settled ..

/-- What is told of a sequence is an error if one of its parts failed. -/
theorem Course.Of.isError_told {parts : List (π σ)} {course : Course π σ} (h : course.Of parts) :
    course.told.isError = course.fails := by
  cases h with
  | through => exact Outcome.isError_ofParts ..
  | stopped _ _ failed => exact failed

theorem Course.isError_ending {stop : Nat → π σ → Context → Outcome Datum → Outcome Datum}
    (hstop : ∀ i p c o, (stop i p c o).isError = true) (course : Course π σ) :
    (course.ending stop).isError = course.fails := by
  cases course with
  | through => exact Outcome.isError_ofParts ..
  | stopped ys z => exact hstop ..

theorem Act.fails_task (y : Act Task σ) : y.fails = (y.along Task.course).fails := by
  rw [fails, outcome_task]
  exact Course.isError_ending (fun _ _ _ _ => rfl) _

theorem Act.fails_job {y : Act Job σ} (hy : y.part.IsBase) :
    y.fails = (y.along Job.course).fails := by
  rw [fails, outcome_job hy]
  exact Course.isError_ending (fun _ _ _ _ => rfl) _

def Job.steps (j : Job σ) : List (Step σ) := j.tasks.flatMap Task.steps

def Pipeline.steps (p : Pipeline σ) : List (Step σ) := p.jobs.flatMap Job.steps

theorem Task.performs (y : Act Task σ) : Performs y.part.steps (y.along Task.performed) y.fails := by
  rw [y.fails_task]
  exact (course_of ..).performs

theorem Job.performs {y : Act Job σ} (hy : y.part.IsBase) :
    Performs y.part.steps (y.along Job.performed) y.fails := by
  rw [y.fails_job hy]
  exact Performs.flatMap (course_of ..) fun z _ => Task.performs z

/-- A pipeline performs its steps in their order, up to the first that fails. -/
theorem Pipeline.performs {p : Pipeline σ} (hp : p.IsBase) (c : Context) (input : Option Datum)
    (r : Running σ) : Performs p.steps (p.performed c input r) (p.course c input r).fails := by
  have hcourse := course_of p.jobs c input (r.publish c [.pipelineStarted])
  exact Performs.flatMap hcourse fun y hy => Job.performs (hp y.part (hcourse.mem hy))

theorem Performs.begins {steps : List (Step σ)} {ys : List (Act Step σ)} {fails : Bool}
    (h : Performs steps ys fails) : ys.map Act.part <+: steps := by
  cases h with
  | through all => exact all ▸ List.prefix_rfl
  | stopped first => exact first

theorem Performs.mem {steps : List (Step σ)} {ys : List (Act Step σ)} {fails : Bool}
    (h : Performs steps ys fails) {y : Act Step σ} (hy : y ∈ ys) : y.part ∈ steps :=
  h.begins.mem (List.mem_map_of_mem hy)

theorem Performs.of_mem {steps : List (Step σ)} {ys : List (Act Step σ)} {fails : Bool}
    (h : Performs steps ys fails) {y : Act Step σ} (hy : y ∈ ys) (hfails : y.fails = true) :
    fails = true := by
  cases h with
  | through _ passed =>
    rw [passed y hy] at hfails
    cases hfails
  | stopped => rfl

theorem Performs.of_passed {steps : List (Step σ)} {ys : List (Act Step σ)} {fails : Bool}
    (h : Performs steps ys fails) (hpass : ∀ y ∈ ys, y.fails = false) : fails = false := by
  cases h with
  | through => rfl
  | stopped _ _ failed =>
    rw [hpass _ (List.mem_append_right _ (List.mem_singleton_self _))] at failed
    cases failed

/-- The act that fails is the last of a course. -/
theorem Course.Of.stopped_at {parts : List (π σ)} {course : Course π σ} (h : course.Of parts)
    {z : Act π σ} (hz : z ∈ course.acts) (hfails : z.fails = true) :
    ∃ ys, course = .stopped ys z := by
  cases h with
  | through _ passed =>
    rw [passed z hz] at hfails
    cases hfails
  | @stopped ys _ _ passed _ =>
    rcases List.mem_append.mp hz with hz | hz
    · rw [passed z hz] at hfails
      cases hfails
    · exact ⟨ys, by rw [List.mem_singleton.mp hz]⟩

/-- A step that fails is the last of its task, its task the last of its job, and its job the last of
the pipeline. -/
structure Pipeline.StoppedAt (course : Course Job σ) (y : Act Step σ) (J : Act Job σ) (T : Act Task σ) :
    Prop where
  job : ∃ Js, course = .stopped Js J
  task : ∃ Ts, J.along Job.course = .stopped Ts T
  step : ∃ Ss, T.along Task.course = .stopped Ss y

theorem Pipeline.stopped_at {p : Pipeline σ} (hp : p.IsBase) {c : Context} {input : Option Datum}
    {r : Running σ} {y : Act Step σ} (hy : y ∈ p.performed c input r) (hfails : y.fails = true) :
    ∃ J T, StoppedAt (p.course c input r) y J T := by
  have hcourse := course_of p.jobs c input (r.publish c [.pipelineStarted])
  obtain ⟨J, hJ, hy⟩ := List.mem_flatMap.mp hy
  have hbase : J.part.IsBase := hp J.part (hcourse.mem hJ)
  have hJfails := (Job.performs hbase).of_mem hy hfails
  obtain ⟨T, hT, hy⟩ := List.mem_flatMap.mp hy
  have hTfails := (Task.performs T).of_mem hy hfails
  exact ⟨J, T, hcourse.stopped_at hJ hJfails, (course_of ..).stopped_at hT hTfails,
    (course_of ..).stopped_at hy hfails⟩

/-- It is the last step that its job performs. -/
theorem Pipeline.StoppedAt.performed_job {course : Course Job σ} {y : Act Step σ} {J : Act Job σ}
    {T : Act Task σ} (h : StoppedAt course y J T) :
    ∃ before, J.along Job.performed = before ++ [y] := by
  obtain ⟨Ts, hT⟩ := h.task
  obtain ⟨Ss, hS⟩ := h.step
  have htask : T.along Task.performed = Ss ++ [y] := by
    change (T.along Task.course).acts = _
    rw [hS]
    rfl
  refine ⟨Ts.flatMap (Act.along Task.performed) ++ Ss, ?_⟩
  change (J.along Job.course).acts.flatMap _ = _
  rw [hT]
  simp [Course.acts, htask]

/-- It is the last step that the pipeline performs. -/
theorem Pipeline.StoppedAt.performed {p : Pipeline σ} {c : Context} {input : Option Datum}
    {r : Running σ} {y : Act Step σ} {J : Act Job σ} {T : Act Task σ}
    (h : StoppedAt (p.course c input r) y J T) :
    ∃ before, p.performed c input r = before ++ [y] := by
  obtain ⟨Js, hJ⟩ := h.job
  obtain ⟨before, hjob⟩ := h.performed_job
  refine ⟨Js.flatMap (Act.along Job.performed) ++ before, ?_⟩
  rw [Pipeline.performed, hJ]
  simp [Course.acts, hjob]

end TestMigration
