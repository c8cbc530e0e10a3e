import TestMigration.Migration.Stage
import TestMigration.Proofs.History

/-! The events of a run. Every part that is started is completed, and between the two of a step
nothing of another step is published; the error event of a step stands there exactly if the step
raised a failure. After the first step that fails nothing is started, but its job and the pipeline
are still completed, with that error. -/

namespace TestMigration

variable {σ : Type}

/-- Whether the event tells of the course of a run, and not of what a step found. -/
def Event.isProgress (e : Event) : Bool := e.kind ∉ [.diagnostic, .transformationCompleted]

/-- Events were added, and none of them tells of the course of the run. -/
def Running.Grows (r r' : Running σ) : Prop :=
  ∃ own, r'.published = r.published ++ own ∧ ∀ e ∈ own, e.isProgress = false

/-- The step takes no event back and tells nothing of the course of the run itself. -/
def Step.Adds (s : Step σ) : Prop := ∀ c input, Relates Running.Grows (s.execute c input)

/-! ## What steps publish -/

section Grows

variable {α β : Type}

theorem grows_of_published {r r' : Running σ} (h : r'.published = r.published) : r.Grows r' :=
  ⟨[], h.trans (List.append_nil _).symm, by simp⟩

theorem Running.Grows.trans {r s t : Running σ} (h : r.Grows s) (h' : s.Grows t) : r.Grows t := by
  obtain ⟨first, hfirst, hquiet⟩ := h
  obtain ⟨rest, hrest, hquiet'⟩ := h'
  refine ⟨first ++ rest, by rw [hrest, hfirst, List.append_assoc], ?_⟩
  intro e he
  rcases List.mem_append.mp he with he | he
  · exact hquiet e he
  · exact hquiet' e he

theorem grows_stepwise :
    Stepwise (Work σ) fun _ (work : Work σ _) => Relates Running.Grows work :=
  relates_stepwise (fun _ => grows_of_published rfl) fun h h' => h.trans h'

theorem grows_publish {c : Context} {detail : EventDetail}
    (h : (⟨c, detail⟩ : Event).isProgress = false) :
    Relates Running.Grows (Work.publish c detail : Work σ Unit) := by
  intro r x r' hwork
  obtain ⟨-, rfl⟩ := hwork.unique (leaves_publish r c detail)
  exact ⟨[⟨c, detail⟩], rfl, by simpa using h⟩

theorem grows_throw (e : Failure) : Relates Running.Grows (throw e : Work σ α) := by
  intro r x r' h
  exact grows_of_published (by rw [h.throw.2])

theorem grows_ofExcept (y : Except Failure α) :
    Relates Running.Grows (MonadExcept.ofExcept y : Work σ α) := by
  intro r x r' h
  exact grows_of_published (by rw [h.ofExcept.2])

theorem grows_onState (m : EStateM Failure σ α) : Relates Running.Grows (Work.onState m) := by
  intro r x r' h
  unfold Leaves Work.onState at h
  cases hm : m r.state <;> cases x <;> rw [hm] at h <;> cases h <;> exact grows_of_published rfl

end Grows

/-- A step that answers the same, whatever it is given. -/
def Step.constant (name : String) (answer : Except Failure (Outcome Datum)) : Step σ :=
  ⟨name, "Step", fun _ _ => MonadExcept.ofExcept answer⟩

theorem Step.constant_adds (name : String) (answer : Except Failure (Outcome Datum)) :
    (constant name answer : Step σ).Adds := fun _ _ => grows_ofExcept answer

namespace Stage

theorem unusable_grows {α : Type} : Relates Running.Grows (unusable : Work Disk α) := grows_throw _

theorem parse_adds (name : String) : (parse name).Adds := by
  intro c input
  unfold parse
  dsimp only
  split
  · split
    · exact grows_stepwise.pure _
    · split
      · exact grows_stepwise.pure _
      · exact grows_throw _
  · exact unusable_grows

theorem publishFindings_grows (c : Context) (findings : List Diagnostic) :
    Relates Running.Grows (publishFindings c findings) :=
  grows_stepwise.forM (fun _ => grows_publish rfl) findings

theorem convert_adds (name : String) : (convert name).Adds := by
  intro c input
  unfold convert
  dsimp only
  split
  · refine grows_stepwise.bind ?_ fun before => ?_
    · intro r x r' h
      exact grows_of_published (by rw [h.get.2])
    split
    · refine grows_stepwise.bind (publishFindings_grows _ _) fun _ => ?_
      split
      · exact grows_stepwise.pure _
      · exact grows_throw _
    · refine grows_stepwise.bind (publishFindings_grows _ _) fun _ => ?_
      exact grows_stepwise.bind (grows_publish rfl) fun _ => grows_stepwise.pure _
  · exact unusable_grows

theorem generate_adds (name : String) : (generate name).Adds := by
  intro c input
  unfold generate
  dsimp only
  split
  · exact grows_stepwise.bind (grows_ofExcept _) fun _ => grows_stepwise.pure _
  · exact unusable_grows

theorem write_adds (name : String) : (write name).Adds := by
  intro c input
  unfold write
  dsimp only
  split
  · exact grows_stepwise.pure _
  · refine Relates.tryCatch (fun h h' => h.trans h') ?_ fun e => ?_
    · refine grows_stepwise.bind (grows_onState _) fun _ => ?_
      split
      · exact grows_stepwise.bind (grows_onState _) fun _ => grows_stepwise.pure _
      · exact grows_stepwise.bind (grows_onState _) fun _ =>
          grows_stepwise.bind (grows_throw _) fun _ => grows_stepwise.pure _
    · split
      · exact grows_stepwise.pure _
      · exact grows_throw _

end Stage

/-! ## The events of the parts -/

/-- The events that the work of a step publishes. -/
def Act.own (y : Act Step σ) : List Event := y.worked.published.drop y.begun.published.length

def Act.events (y : Act Step σ) : List Event :=
  ⟨y.context, .stepStarted y.part.name y.part.type⟩ :: y.own ++
    (y.report ++ [EventDetail.stepCompleted y.part.name y.part.type y.outcome]).map (⟨y.context, ·⟩)

def Job.events (j : Job σ) (c : Context) (input : Option Datum) (r : Running σ) : List Event :=
  ⟨c, .jobStarted j.name j.type j.tasks.length⟩ :: (j.performed c input r).flatMap Act.events ++
    [⟨c, .jobCompleted j.name j.type (j.course c input r).told⟩]

def Pipeline.events (p : Pipeline σ) (c : Context) (input : Option Datum) (r : Running σ) :
    List Event :=
  ⟨c, .pipelineStarted⟩ :: (p.course c input r).acts.flatMap (Act.along Job.events) ++
    [⟨c, .pipelineCompleted (p.course c input r).told⟩]

/-! ## What is published -/

/-- The events of a course are those of its acts. -/
theorem course_published {π : Type → Type} [Part π] {events : Act π σ → List Event}
    (parts : List (π σ))
    (h : ∀ y : Act π σ, y.part ∈ parts → y.left.published = y.met.published ++ events y)
    (c : Context) (input : Option Datum) (r : Running σ) :
    (course parts c input r).left.published =
      r.published ++ (course parts c input r).acts.flatMap events := by
  refine course_induction (P := fun parts _ _ r course =>
    (∀ y : Act π σ, y.part ∈ parts → y.left.published = y.met.published ++ events y) →
      course.left.published = r.published ++ course.acts.flatMap events) ?_ ?_ ?_ parts c input r h
  · intro c input r _
    exact (List.append_nil _).symm
  · intro y rest _ h
    simpa [Course.acts, Course.left] using h y (List.mem_cons_self ..)
  · intro y rest course' _ ih h
    rw [Course.left_after, ih fun z hz => h z (List.mem_cons_of_mem _ hz),
      h y (List.mem_cons_self ..), Course.acts_after, List.flatMap_cons, List.append_assoc]

theorem Act.published_own {y : Act Step σ} (h : y.part.Adds) :
    y.worked.published = y.begun.published ++ y.own ∧ ∀ e ∈ y.own, e.isProgress = false := by
  obtain ⟨own, hown, hquiet⟩ := h _ _ _ _ _ y.execute_leaves
  have hsame : y.own = own := by
    rw [Act.own, hown, List.drop_left]
  rw [hsame]
  exact ⟨hown, hquiet⟩

theorem Act.published_step {y : Act Step σ} (h : y.part.Adds) :
    y.left.published = y.met.published ++ y.events := by
  rw [y.left_step, Running.publish, (Act.published_own h).1]
  simp [begun, events, Running.publish]

theorem Act.published_task {y : Act Task σ} (h : ∀ s ∈ y.part.steps, s.Adds) :
    y.left.published = y.met.published ++ (y.along Task.performed).flatMap Act.events := by
  rw [y.left_task]
  exact course_published _ (fun z hz => Act.published_step (h z.part hz)) ..

theorem Act.published_job {y : Act Job σ} (hy : y.part.IsBase) (h : ∀ s ∈ y.part.steps, s.Adds) :
    y.left.published = y.met.published ++ y.along Job.events := by
  have htasks := course_published y.part.tasks
    (fun z hz => Act.published_task fun s hs => h s (List.mem_flatMap_of_mem hz hs)) y.context y.input
    (y.met.publish y.context [.jobStarted y.part.name y.part.type y.part.tasks.length])
  rw [Act.left_job hy, Running.publish]
  change (y.along Job.course).left.published ++ _ = _
  rw [show (y.along Job.course).left.published = _ from htasks]
  simp [Act.along, Job.events, Job.performed, Job.course, Running.publish, List.flatMap_assoc]

namespace Pipeline

variable {p : Pipeline σ} {c : Context} {input : Option Datum} {r r' : Running σ}

theorem published (hp : p.IsBase) (h : ∀ s ∈ p.steps, s.Adds) :
    ((p.course c input r).left.publish c [.pipelineCompleted (p.course c input r).told]).published =
      r.published ++ p.events c input r := by
  have hjobs := course_published p.jobs (fun z hz => Act.published_job (hp z.part hz)
    fun s hs => h s (List.mem_flatMap_of_mem hz hs)) c input (r.publish c [.pipelineStarted])
  rw [Running.publish, show (p.course c input r).left.published = _ from hjobs]
  simp [events, course, Running.publish]

/-! ## The protocol -/

/-- What a run of `p` publishes after `r`, and how far it gets. The parts performed are the first of
the pipeline and of each job. If no step fails they are all, and every completion is one without an
error; a step that fails is the last of its job and of the pipeline, and both are completed with an
error. -/
structure Protocol (p : Pipeline σ) (c : Context) (input : Option Datum) (r r' : Running σ) :
    Prop where
  events : r'.published = r.published ++ p.events c input r
  own : ∀ y ∈ p.performed c input r, ∀ e ∈ y.own, e.isProgress = false
  jobs : (p.course c input r).acts.map Act.part <+: p.jobs
  steps : ∀ J ∈ (p.course c input r).acts, (J.along Job.performed).map Act.part <+: J.part.steps
  through : (∀ y ∈ p.performed c input r, y.fails = false) →
    (p.course c input r).acts.map Act.part = p.jobs ∧ (p.course c input r).told.isError = false ∧
      ∀ J ∈ (p.course c input r).acts, (J.along Job.performed).map Act.part = J.part.steps ∧
        (J.along Job.course).told.isError = false
  stopped : ∀ y ∈ p.performed c input r, y.fails = true →
    (p.performed c input r).getLast? = some y ∧ (p.course c input r).told.isError = true ∧
      ∃ J, (p.course c input r).acts.getLast? = some J ∧ y ∈ J.along Job.performed ∧
        (J.along Job.course).told.isError = true

/-- A pipeline of base jobs comes to an outcome and follows the protocol, whatever its steps do. -/
theorem follows_protocol (hp : p.IsBase) (hadds : ∀ s ∈ p.steps, s.Adds) :
    ∃ o r', Leaves (p.execute c input) r (.ok o) r' ∧ p.Protocol c input r r' := by
  have hcourse : (p.course c input r).Of p.jobs := course_of ..
  have hperforms := p.performs hp c input r
  have hbase : ∀ J ∈ (p.course c input r).acts, J.part.IsBase := fun J hJ =>
    hp J.part (hcourse.mem hJ)
  refine ⟨_, _, p.execute_follows hp c input r, published hp hadds, ?own, hcourse.begins, ?steps,
    ?through, ?stopped⟩
  case own =>
    intro y hy
    exact (Act.published_own (hadds y.part (hperforms.mem hy))).2
  case steps =>
    intro J hJ
    exact (Job.performs (hbase J hJ)).begins
  case through =>
    intro hpass
    have hJ : ∀ J ∈ (p.course c input r).acts, J.fails = false := fun J hJ =>
      (Job.performs (hbase J hJ)).of_passed fun y hy => hpass y (List.mem_flatMap_of_mem hJ hy)
    refine ⟨hcourse.all hJ, hcourse.isError_told.trans (hperforms.of_passed hpass), ?_⟩
    intro J hmem
    have hjob := Job.performs (hbase J hmem)
    rw [hJ J hmem] at hjob
    refine ⟨hjob.passes.1, (course_of ..).isError_told.trans ?_⟩
    rw [← hJ J hmem]
    exact (Act.fails_job (hbase J hmem)).symm
  case stopped =>
    intro y hy hfails
    obtain ⟨J, T, hstop⟩ := stopped_at hp hy hfails
    have hjob : (J.along Job.course).Of J.part.tasks := course_of ..
    obtain ⟨before, hlast⟩ := hstop.performed
    obtain ⟨earlier, hlast'⟩ := hstop.performed_job
    obtain ⟨Js, hJ⟩ := hstop.job
    obtain ⟨Ts, hT⟩ := hstop.task
    refine ⟨by rw [hlast, List.getLast?_concat], ?_, J, ?_, ?_, ?_⟩
    · rw [hcourse.isError_told, hJ]
      rfl
    · rw [hJ]
      exact List.getLast?_concat
    · rw [hlast']
      exact List.mem_append_right _ (List.mem_singleton_self y)
    · rw [hjob.isError_told, hT]
      rfl

theorem follows_protocol_raising :
    let p : Pipeline Unit := ⟨"p", [⟨"first", "Job", [⟨"t", [.constant "a" (.ok (.success none)),
      .constant "b" (.error (.of .runtime "no")), .constant "c" (.ok (.success none))]⟩],
      fun _ input => return .ok input⟩, ⟨"second", "Job", [], fun _ input => return .ok input⟩]⟩
    p.IsBase ∧ (∀ s ∈ p.steps, s.Adds) ∧
      ∃ o r', Leaves (p.execute (.create "a.js" none .standard "run") none) ⟨[], ()⟩ (.ok o) r' ∧
        r'.published.map Event.kind = [.pipelineStarted, .jobStarted, .stepStarted, .stepCompleted,
          .stepStarted, .error, .stepCompleted, .jobCompleted, .pipelineCompleted] := by
  intro p
  have hp : p.IsBase := by
    intro j hj
    rcases List.mem_pair.mp hj with rfl | rfl <;> rfl
  have hadds : ∀ s ∈ p.steps, s.Adds := by
    intro s hs
    have hs : s ∈ [_, _, _] := hs
    simp only [List.mem_cons, List.not_mem_nil, or_false] at hs
    rcases hs with rfl | rfl | rfl <;> exact Step.constant_adds _ _
  obtain ⟨o, r', hrun, hprotocol⟩ := @follows_protocol Unit p
    (.create "a.js" none .standard "run") none ⟨[], ()⟩ hp hadds
  refine ⟨hp, hadds, o, r', hrun, ?_⟩
  rw [hprotocol.events]
  rfl

end Pipeline

end TestMigration
