import TestMigration.Proofs.Protocol

/-! What steps hand on to each other. A task has the data of its last step and a job that of its last
task, so what goes on from a group is what its last step yields. Where that is the latest datum of the
group, a step receives the latest datum of all steps before it, and it makes no difference how the
steps are grouped. Where a group ends with a step that yields nothing, what the steps before it had
yielded goes no further. -/

namespace TestMigration

variable {σ : Type} {π : Type → Type}

/-! ## The latest datum -/

def Act.data [Part π] (y : Act π σ) : Option Datum := y.outcome.data

/-- The datum of the latest of the steps that yielded one. -/
def latest (ys : List (Act Step σ)) : Option Datum := (ys.filterMap Act.data).getLast?

theorem latest_cons (y : Act Step σ) (ys : List (Act Step σ)) (input : Option Datum) :
    (latest (y :: ys) <|> input) = (latest ys <|> (y.data <|> input)) := by
  unfold latest
  cases hy : y.data with
  | none => simp [hy]
  | some a => cases h : (ys.filterMap Act.data).getLast? <;> simp [hy, h, List.getLast?_cons]

/-- What the last of some steps yielded. -/
def lastData (ys : List (Act Step σ)) : Option Datum := ys.getLast?.bind Act.data

/-- Some steps that yield data end with one that does. -/
def EndsWithData (ys : List (Act Step σ)) : Prop := (∃ y ∈ ys, y.data ≠ none) → lastData ys ≠ none

theorem EndsWithData.latest_eq {ys : List (Act Step σ)} (h : EndsWithData ys) :
    latest ys = lastData ys := by
  rcases List.eq_nil_or_concat' ys with rfl | ⟨zs, y, rfl⟩
  · rfl
  have hlast : lastData (zs ++ [y]) = y.data := by simp [lastData]
  rw [hlast, latest, List.filterMap_append]
  cases hy : y.data with
  | some a => simp [hy]
  | none =>
    have hnone : ∀ x ∈ zs ++ [y], x.data = none := by
      intro x hx
      by_contra hdata
      exact h ⟨x, hx, hdata⟩ (hlast.trans hy)
    have hzs : zs.filterMap Act.data = [] :=
      List.filterMap_eq_nil_iff.mpr fun x hx => hnone x (List.mem_append_left _ hx)
    simp [hzs, hy]

/-! ## Steps one after the other -/

/-- What the step answers and does to the state depends on what it is given and on the state, but not
on what was published before. -/
def Step.Deaf (s : Step σ) : Prop :=
  ∀ c input x (r r' t : Running σ), r'.state = r.state → Leaves (s.execute c input) r x t →
    ∃ t', Leaves (s.execute c input) r' x t' ∧ t'.state = t.state

theorem Act.left_state (y : Act Step σ) : y.left.state = y.worked.state := by
  rw [y.left_step]
  rfl

theorem Act.agree {y z : Act Step σ} (hpart : z.part = y.part) (hc : z.context = y.context)
    (hi : z.input = y.input) (hs : z.met.state = y.met.state) (h : y.part.Deaf) :
    z.outcome = y.outcome ∧ z.left.state = y.left.state := by
  obtain ⟨part, context, input, met⟩ := z
  dsimp only at hpart hc hi hs
  subst hpart hc hi
  let z : Act Step σ := ⟨y.part, y.context, y.input, met⟩
  obtain ⟨t, ht, hstate⟩ := h _ _ _ y.begun z.begun _ hs y.execute_leaves
  obtain ⟨hanswer, rfl⟩ := ht.unique z.execute_leaves
  refine ⟨?_, z.left_state.trans (hstate.trans y.left_state.symm)⟩
  change z.outcome = y.outcome
  rcases y.outcome_step with hy | ⟨e, hy, ho⟩
  · rcases z.outcome_step with hz | ⟨e, hz, -⟩
    · rw [← hanswer, hy] at hz
      exact (Except.ok.inj hz).symm
    · rw [← hanswer, hy] at hz
      cases hz
  · rcases z.outcome_step with hz | ⟨e', hz, ho'⟩
    · rw [← hanswer, hy] at hz
      cases hz
    · rw [← hanswer, hy] at hz
      cases hz
      rw [ho, ho']
      rfl

/-- A step that yields what it is given. -/
def Step.echo (name : String) : Step σ := ⟨name, "Step", fun _ input => return .success input⟩

theorem Step.echo_deaf (name : String) : (echo name : Step σ).Deaf := by
  intro c input x r r' t hstate h
  have h : Leaves (pure (.success input) : Work σ _) r x t := h
  obtain ⟨rfl, rfl⟩ := h.pure
  exact ⟨r', rfl, hstate⟩

theorem Step.constant_deaf (name : String) (answer : Except Failure (Outcome Datum)) :
    (constant name answer : Step σ).Deaf := by
  intro c input x r r' t hstate h
  have h : Leaves (MonadExcept.ofExcept answer : Work σ _) r x t := h
  obtain ⟨rfl, rfl⟩ := h.ofExcept
  exact ⟨r', by cases x <;> rfl, hstate⟩

/-- Each of the steps is given the context `c`, the latest datum and the state that the one before it
left; the first is given `input` and `s`, and `input'` and `s'` come after the last. -/
inductive Threads (c : Context) : Option Datum → σ → List (Act Step σ) → Option Datum → σ → Prop where
  | nil (input : Option Datum) (s : σ) : Threads c input s [] input s
  | cons {y : Act Step σ} {ys : List (Act Step σ)} {input' : Option Datum} {s' : σ}
      (context : y.context = c) (rest : Threads c (y.data <|> y.input) y.left.state ys input' s') :
      Threads c y.input y.met.state (y :: ys) input' s'

namespace Threads

variable {c : Context} {input input' input'' : Option Datum} {s s' s'' : σ}
  {ys zs : List (Act Step σ)}

theorem append (h : Threads c input s ys input' s') (h' : Threads c input' s' zs input'' s'') :
    Threads c input s (ys ++ zs) input'' s'' := by
  induction h with
  | nil => exact h'
  | cons context _ ih => exact .cons context (ih h')

theorem last (h : Threads c input s ys input' s') : input' = (latest ys <|> input) := by
  induction h with
  | nil => simp [latest]
  | cons _ _ ih => rw [latest_cons, ih]

theorem of_cons {y : Act Step σ} (h : Threads c input s (y :: ys) input' s') :
    y.context = c ∧ y.input = input ∧ y.met.state = s ∧
      Threads c (y.data <|> input) y.left.state ys input' s' := by
  cases h with
  | cons context rest => exact ⟨context, rfl, rfl, rest⟩

/-- What a step is given. -/
theorem given {y : Act Step σ} (h : Threads c input s (ys ++ y :: zs) input' s') :
    y.context = c ∧ y.input = (latest ys <|> input) := by
  induction ys generalizing input s with
  | nil =>
    obtain ⟨context, hinput, -, -⟩ := h.of_cons
    exact ⟨context, by simpa [latest] using hinput⟩
  | cons x xs ih =>
    obtain ⟨-, -, -, rest⟩ := h.of_cons
    rw [latest_cons]
    exact ih rest

/-- The same steps, given the same, do the same. -/
theorem agree {t t' : σ} (h : Threads c input s ys input' t) (h' : Threads c input s zs input'' t')
    (hparts : zs.map Act.part = ys.map Act.part) (hdeaf : ∀ y ∈ ys, y.part.Deaf) :
    zs.map Act.input = ys.map Act.input ∧ zs.map Act.outcome = ys.map Act.outcome ∧ t' = t := by
  induction h generalizing zs with
  | nil =>
    cases List.map_eq_nil_iff.mp hparts
    cases h'
    exact ⟨rfl, rfl, rfl⟩
  | @cons y ys _ _ context rest ih =>
    cases zs with
    | nil => cases hparts
    | cons z zs =>
      obtain ⟨hpart, hparts⟩ := List.cons.inj hparts
      obtain ⟨hcontext, hinput, hstate, hrest⟩ := h'.of_cons
      obtain ⟨houtcome, hleft⟩ := Act.agree hpart (hcontext.trans context.symm) hinput hstate
        (hdeaf y (List.mem_cons_self ..))
      rw [hleft, Act.data, houtcome] at hrest
      obtain ⟨hinputs, houtcomes, hend⟩ :=
        ih hrest hparts fun x hx => hdeaf x (List.mem_cons_of_mem _ hx)
      exact ⟨by simp [hinput, hinputs], by simp [houtcome, houtcomes], hend⟩

end Threads

/-! ## Groups of steps -/

section Groups

variable [Part π] {parts : List (π σ)} {c : Context} {input : Option Datum} {r : Running σ}

/-- The steps of a course thread if those of its acts do, from what an act is given to what the next
one is given. -/
theorem course_threads (inner : Act π σ → List (Act Step σ)) (parts : List (π σ)) (c : Context)
    (input : Option Datum) (r : Running σ) (hpass : (course parts c input r).fails = false)
    (h : ∀ y ∈ (course parts c input r).acts, y.next.1 = y.context ∧
      Threads y.context y.input y.met.state (inner y) y.next.2 y.left.state) :
    ∃ input', Threads c input r.state ((course parts c input r).acts.flatMap inner) input'
      (course parts c input r).left.state := by
  refine course_induction (P := fun _ c input r course => course.fails = false →
    (∀ y ∈ course.acts, y.next.1 = y.context ∧
      Threads y.context y.input y.met.state (inner y) y.next.2 y.left.state) →
    ∃ input', Threads c input r.state (course.acts.flatMap inner) input' course.left.state) ?_ ?_ ?_
    parts c input r hpass h
  · intro c input r _ _
    exact ⟨input, .nil ..⟩
  · intro y rest _ hpass _
    cases hpass
  · intro y rest course' _ ih hpass h
    rw [Course.acts_after] at h ⊢
    obtain ⟨hcontext, hy⟩ := h y (List.mem_cons_self ..)
    rw [Course.fails_after] at hpass
    rw [hcontext] at ih
    obtain ⟨input', hrest⟩ := ih hpass fun z hz => h z (List.mem_cons_of_mem _ hz)
    rw [Course.left_after]
    exact ⟨input', hy.append hrest⟩

/-- What a course that passes yields: the datum of its last act. -/
theorem Course.data_ending {course : Course π σ} (hpass : course.fails = false)
    (hacts : course.acts ≠ []) (stop : Nat → π σ → Context → Outcome Datum → Outcome Datum) :
    (course.ending stop).data = course.acts.getLast?.bind Act.data := by
  cases course with
  | stopped => cases hpass
  | through ys c input r =>
    obtain ⟨zs, z, rfl⟩ := (List.eq_nil_or_concat' ys).resolve_left hacts
    change (Outcome.ofParts input ((zs ++ [z]).map Act.outcome)).data =
      (zs ++ [z]).getLast?.bind Act.data
    rw [List.map_append]
    exact (Outcome.endsAs_ofParts input (zs.map Act.outcome) z.outcome).data.trans (by simp [Act.data])

/-- The last step of the last of some groups. -/
theorem lastData_flatMap {inner : Act π σ → List (Act Step σ)} {ys : List (Act π σ)}
    (h : ∀ y ∈ ys, inner y ≠ [] ∧ y.data = lastData (inner y)) :
    ys.getLast?.bind Act.data = lastData (ys.flatMap inner) := by
  rcases List.eq_nil_or_concat' ys with rfl | ⟨zs, z, rfl⟩
  · rfl
  obtain ⟨hne, hz⟩ := h z (List.mem_append_right _ (List.mem_singleton_self z))
  obtain ⟨ws, w, hw⟩ := (List.eq_nil_or_concat' (inner z)).resolve_left hne
  rw [hw] at hz
  simp [lastData, hw, hz]

end Groups

/-- A step that passes hands on what it yields. -/
theorem Act.next_step {y : Act Step σ} (h : y.fails = false) :
    y.next = (y.context, y.data <|> y.input) := by
  change (y.context, y.outcome.nextInput y.input) = _
  rw [Outcome.nextInput, show y.outcome.isError = false from h]
  rfl

theorem Outcome.handOn_of_plain {o : Outcome Datum} (h : o.isError = false)
    (hplain : o.data.bind Datum.context? = none) (c : Context) (input : Option Datum) :
    o.handOn c input = (c, o.data <|> input) := by
  rw [handOn, hplain, nextInput, h]
  rfl

theorem lastData_plain {ys : List (Act Step σ)} (h : ∀ y ∈ ys, y.data.bind Datum.context? = none) :
    (lastData ys).bind Datum.context? = none := by
  rcases List.eq_nil_or_concat' ys with rfl | ⟨zs, y, rfl⟩
  · rfl
  · simpa [lastData] using h y (List.mem_append_right _ (List.mem_singleton_self y))

/-- A group that passes and loses no data hands on the latest datum of its steps. -/
theorem Act.next_group [Part π] {y : Act π σ} {ys : List (Act Step σ)}
    (hhand : y.next = y.outcome.handOn y.context y.input) (hpass : y.fails = false)
    (hdata : y.data = lastData ys) (hplain : ∀ z ∈ ys, z.data.bind Datum.context? = none)
    (hends : EndsWithData ys) : y.next = (y.context, latest ys <|> y.input) := by
  have hplain : y.outcome.data.bind Datum.context? = none := by
    rw [show y.outcome.data = lastData ys from hdata]
    exact lastData_plain hplain
  rw [hhand, Outcome.handOn_of_plain hpass hplain, hends.latest_eq, ← hdata]
  rfl

section Tasks

variable {T : Act Task σ}

theorem Act.threads_task (hpass : T.fails = false) :
    Threads T.context T.input T.met.state (T.along Task.performed)
      (latest (T.along Task.performed) <|> T.input) T.left.state := by
  rw [T.fails_task] at hpass
  have hcourse : (T.along Task.course).Of T.part.steps := course_of ..
  obtain ⟨input', h⟩ := course_threads (fun y => [y]) T.part.steps T.context T.input T.met
    hpass fun y hy => by
      rw [y.next_step (hcourse.passed hpass y hy)]
      exact ⟨rfl, .cons rfl (.nil ..)⟩
  rw [List.flatMap_singleton'] at h
  have h : Threads T.context T.input T.met.state (T.along Task.performed) input'
    (T.along Task.course).left.state := h
  rw [← h.last, T.left_task]
  exact h

theorem Act.data_task (hpass : T.fails = false) (hsteps : T.part.steps ≠ []) :
    T.along Task.performed ≠ [] ∧ T.data = lastData (T.along Task.performed) := by
  have hperformed : T.along Task.performed ≠ [] := by
    have hall := Task.performs T
    rw [hpass] at hall
    intro hnone
    rw [← hall.passes.1, hnone] at hsteps
    exact hsteps rfl
  refine ⟨hperformed, ?_⟩
  rw [data, T.outcome_task]
  exact Course.data_ending (T.fails_task ▸ hpass) hperformed _

end Tasks

section Jobs

variable {J : Act Job σ}

theorem Act.threads_job (hbase : J.part.IsBase) (hpass : J.fails = false)
    (hsteps : ∀ t ∈ J.part.tasks, t.steps ≠ [])
    (hplain : ∀ y ∈ J.along Job.performed, y.data.bind Datum.context? = none)
    (hends : ∀ T ∈ (J.along Job.course).acts, EndsWithData (T.along Task.performed)) :
    Threads J.context J.input J.met.state (J.along Job.performed)
      (latest (J.along Job.performed) <|> J.input) J.left.state := by
  rw [fails_job hbase] at hpass
  have hcourse : (J.along Job.course).Of J.part.tasks := course_of ..
  obtain ⟨input', h⟩ := course_threads (along Task.performed) J.part.tasks J.context J.input
    (J.met.publish J.context [.jobStarted J.part.name J.part.type J.part.tasks.length]) hpass
    fun T hT => by
      have hT' : T.fails = false := hcourse.passed hpass T hT
      have hsteps := hsteps T.part (hcourse.mem hT)
      rw [next_group rfl hT' (T.data_task hT' hsteps).2
        (fun y hy => hplain y (List.mem_flatMap_of_mem hT hy)) (hends T hT)]
      exact ⟨rfl, T.threads_task hT'⟩
  have h : Threads J.context J.input J.met.state (J.along Job.performed) input'
    (J.along Job.course).left.state := h
  rw [← h.last, left_job hbase]
  exact h

theorem Act.data_job (hbase : J.part.IsBase) (hpass : J.fails = false) (htasks : J.part.tasks ≠ [])
    (hsteps : ∀ t ∈ J.part.tasks, t.steps ≠ []) :
    J.along Job.performed ≠ [] ∧ J.data = lastData (J.along Job.performed) := by
  have hcourse : (J.along Job.course).Of J.part.tasks := course_of ..
  rw [fails_job hbase] at hpass
  have hT : ∀ T ∈ (J.along Job.course).acts, T.along Task.performed ≠ [] ∧
      T.data = lastData (T.along Task.performed) := fun T hT =>
    T.data_task (hcourse.passed hpass T hT) (hsteps T.part (hcourse.mem hT))
  have hacts : (J.along Job.course).acts ≠ [] := by
    intro hnone
    rw [← hcourse.all (hcourse.passed hpass), hnone] at htasks
    exact htasks rfl
  constructor
  · obtain ⟨T, hmem⟩ := List.exists_mem_of_ne_nil _ hacts
    intro hnone
    exact (hT T hmem).1 (List.flatMap_eq_nil_iff.mp hnone T hmem)
  · rw [data, outcome_job hbase, Course.data_ending hpass hacts]
    exact lastData_flatMap hT

end Jobs

/-! ## Runs -/


namespace Pipeline

/-- The jobs and the tasks of the pipeline have parts, no step fails and none yields a context. -/
structure Smooth (p : Pipeline σ) (c : Context) (input : Option Datum) (r : Running σ) : Prop where
  base : p.IsBase
  jobs : ∀ j ∈ p.jobs, j.tasks ≠ []
  tasks : ∀ j ∈ p.jobs, ∀ t ∈ j.tasks, t.steps ≠ []
  passed : ∀ y ∈ p.performed c input r, y.fails = false
  plain : ∀ y ∈ p.performed c input r, y.data.bind Datum.context? = none

/-- Every task and every job that yields data ends with a step that yields data. -/
def KeepsData (p : Pipeline σ) (c : Context) (input : Option Datum) (r : Running σ) : Prop :=
  ∀ J ∈ (p.course c input r).acts, EndsWithData (J.along Job.performed) ∧
    ∀ T ∈ (J.along Job.course).acts, EndsWithData (T.along Task.performed)

variable {p : Pipeline σ} {c : Context} {input : Option Datum} {r : Running σ}

theorem Smooth.passes (h : p.Smooth c input r) : (p.course c input r).fails = false ∧
    (p.performed c input r).map Act.part = p.steps := by
  have hperforms := p.performs h.base c input r
  have hpass := hperforms.of_passed h.passed
  rw [hpass] at hperforms
  exact ⟨hpass, hperforms.passes.1⟩

theorem Smooth.data_job (h : p.Smooth c input r) : ∀ J ∈ (p.course c input r).acts,
    J.along Job.performed ≠ [] ∧ J.data = lastData (J.along Job.performed) := by
  intro J hJ
  have hcourse : (p.course c input r).Of p.jobs := course_of ..
  have hmem := hcourse.mem hJ
  exact Act.data_job (h.base J.part hmem) (hcourse.passed h.passes.1 J hJ) (h.jobs J.part hmem)
    (h.tasks J.part hmem)

/-- A run yields what its last step yields, or its input if it has no steps. -/
theorem Smooth.data (h : p.Smooth c input r) : ((p.course c input r).ending (p.stop c)).data =
    ((p.performed c input r).getLast?.map Act.data).getD input := by
  have hcourse : (p.course c input r).Of p.jobs := course_of ..
  have hjobs := h.data_job
  rcases List.eq_nil_or_concat' (p.course c input r).acts with hnone | ⟨Js, J, hacts⟩
  · have hempty : p.jobs = [] := by
      rw [← hcourse.all (hcourse.passed h.passes.1), hnone]
      rfl
    rw [performed, hnone, course, hempty]
    rfl
  · have hne : (p.course c input r).acts ≠ [] := by
      rw [hacts]
      exact List.concat_ne_nil _ _
    obtain ⟨hsome, hJ⟩ := hjobs J (by rw [hacts]; exact List.mem_append_right _ (List.mem_singleton_self J))
    obtain ⟨ys, y, hys⟩ := (List.eq_nil_or_concat' (J.along Job.performed)).resolve_left hsome
    rw [Course.data_ending h.passes.1 hne, performed, hacts]
    simp [hys, hJ, lastData]

/-- The steps of a run that loses no data thread. -/
theorem Smooth.threads (h : p.Smooth c input r) (hkeeps : p.KeepsData c input r) :
    ∃ input' s', Threads c input r.state (p.performed c input r) input' s' := by
  have hcourse : (p.course c input r).Of p.jobs := course_of ..
  obtain ⟨input', hthreads⟩ := course_threads (Act.along Job.performed) p.jobs c input
    (r.publish c [.pipelineStarted]) h.passes.1 fun J hJ => by
      have hmem := hcourse.mem hJ
      have hJ' : J.fails = false := hcourse.passed h.passes.1 J hJ
      have hplain : ∀ y ∈ J.along Job.performed, y.data.bind Datum.context? = none := fun y hy =>
        h.plain y (List.mem_flatMap_of_mem hJ hy)
      rw [Act.next_group rfl hJ' (h.data_job J hJ).2 hplain (hkeeps J hJ).1]
      exact ⟨rfl, Act.threads_job (h.base J.part hmem) hJ' (h.tasks J.part hmem) hplain (hkeeps J hJ).2⟩
  exact ⟨input', _, hthreads⟩

/-- A pipeline with one job, whose tasks have the given steps. -/
def ofTasks (tasks : List (List (Step σ))) : Pipeline σ :=
  ⟨"pipeline", [⟨"job", "Job", tasks.map fun steps => ⟨"task", steps⟩, fun _ input => return .ok input⟩]⟩

theorem ofTasks_smooth {tasks : List (List (Step σ))} (hne : tasks ≠ [])
    (hsteps : ∀ steps ∈ tasks, steps ≠ [])
    (h : ((ofTasks tasks).performed c input r).all (fun y =>
      !y.fails && (y.data.bind Datum.context?).isNone) = true) : (ofTasks tasks).Smooth c input r := by
  have hall := List.all_eq_true.mp h
  refine ⟨?_, ?_, ?_, ?_, ?_⟩
  · intro j hj
    rw [List.mem_singleton.mp hj]
    rfl
  · intro j hj
    rw [List.mem_singleton.mp hj]
    simpa using hne
  · intro j hj t ht
    rw [List.mem_singleton.mp hj] at ht
    obtain ⟨steps, hmem, rfl⟩ := List.mem_map.mp ht
    exact hsteps steps hmem
  · intro y hy
    simpa using (Bool.and_eq_true_iff.mp (hall y hy)).1
  · intro y hy
    simpa using (Bool.and_eq_true_iff.mp (hall y hy)).2

theorem keepsData_of_all (h : (p.course c input r).acts.all (fun J =>
    (lastData (J.along Job.performed)).isSome && (J.along Job.course).acts.all fun T =>
      (lastData (T.along Task.performed)).isSome) = true) : p.KeepsData c input r := by
  intro J hJ
  obtain ⟨hjob, htasks⟩ := Bool.and_eq_true_iff.mp (List.all_eq_true.mp h J hJ)
  refine ⟨fun _ => Option.isSome_iff_ne_none.mp hjob, ?_⟩
  intro T hT _
  exact Option.isSome_iff_ne_none.mp (List.all_eq_true.mp htasks T hT)

/-- Where no group loses data, each step is given the latest datum of all steps before it, or else the
input, and the run yields what its last step yields. Any other grouping of the same steps that loses
no data gives each step the same and yields the same. -/
theorem execute_threads (h : p.Smooth c input r) (hkeeps : p.KeepsData c input r) :
    ∃ o r', Leaves (p.execute c input) r (.ok o) r' ∧
      (p.performed c input r).map Act.part = p.steps ∧
      (∀ before y after, p.performed c input r = before ++ y :: after →
        y.input = ((before.filterMap (·.outcome.data)).getLast? <|> input)) ∧
      o.data = ((p.performed c input r).getLast?.map (·.outcome.data)).getD input ∧
      ∀ (p' : Pipeline σ) r₂, p'.Smooth c input r₂ → p'.KeepsData c input r₂ →
        p'.steps = p.steps → (∀ s ∈ p.steps, s.Deaf) → r₂.state = r.state →
        (p'.performed c input r₂).map Act.input = (p.performed c input r).map Act.input ∧
        ∃ o' r₂', Leaves (p'.execute c input) r₂ (.ok o') r₂' ∧ o'.data = o.data := by
  obtain ⟨input', s', hthreads⟩ := h.threads hkeeps
  refine ⟨_, _, p.execute_follows h.base c input r, h.passes.2, ?given, h.data, ?regrouped⟩
  case given =>
    intro before y after hsplit
    rw [hsplit] at hthreads
    exact hthreads.given.2
  case regrouped =>
    intro p' r₂ h' hkeeps' hsteps hdeaf hstate
    obtain ⟨input'', s'', hthreads'⟩ := h'.threads hkeeps'
    rw [hstate] at hthreads'
    obtain ⟨hinputs, houtcomes, -⟩ := hthreads.agree hthreads'
      (by rw [h'.passes.2, hsteps, h.passes.2])
      fun y hy => hdeaf y.part (h.passes.2 ▸ List.mem_map_of_mem hy)
    refine ⟨hinputs, _, _, p'.execute_follows h'.base c input r₂, ?_⟩
    have hlast : (p'.performed c input r₂).getLast?.map Act.outcome =
        (p.performed c input r).getLast?.map Act.outcome := by
      rw [← List.getLast?_map, ← List.getLast?_map, houtcomes]
    have hdata : (p'.performed c input r₂).getLast?.map Act.data =
        (p.performed c input r).getLast?.map Act.data := by
      have hmap := congrArg (Option.map Outcome.data) hlast
      rw [Option.map_map, Option.map_map] at hmap
      exact hmap
    rw [h'.data, h.data, hdata]

theorem execute_threads_regrouped :
    let p : Pipeline Unit := ofTasks [[.constant "a" (.ok (.success (some (.text "x"))))],
      [.constant "b" (.ok (.success none)), .echo "c"]]
    let p' : Pipeline Unit := ofTasks [[.constant "a" (.ok (.success (some (.text "x")))),
      .constant "b" (.ok (.success none)), .echo "c"]]
    let c : Context := .create "a.js" none .standard "run"
    (p.Smooth c none ⟨[], ()⟩ ∧ p.KeepsData c none ⟨[], ()⟩) ∧
    (p'.Smooth c none ⟨[], ()⟩ ∧ p'.KeepsData c none ⟨[], ()⟩) ∧
    p'.steps = p.steps ∧ (∀ s ∈ p.steps, s.Deaf) ∧
    (p'.performed c none ⟨[], ()⟩).map Act.input = [none, some (.text "x"), some (.text "x")] ∧
      ∃ o r', Leaves (p'.execute c none) ⟨[], ()⟩ (.ok o) r' ∧ o.data = some (.text "x") := by
  intro p p' c
  have h : p.Smooth c none ⟨[], ()⟩ := ofTasks_smooth (by simp) (by simp) rfl
  have hkeeps : p.KeepsData c none ⟨[], ()⟩ := keepsData_of_all rfl
  have h' : p'.Smooth c none ⟨[], ()⟩ := ofTasks_smooth (by simp) (by simp) rfl
  have hkeeps' : p'.KeepsData c none ⟨[], ()⟩ := keepsData_of_all rfl
  have hdeaf : ∀ s ∈ p.steps, s.Deaf := by
    intro s hs
    have hs : s ∈ [_, _, _] := hs
    simp only [List.mem_cons, List.not_mem_nil, or_false] at hs
    rcases hs with rfl | rfl | rfl
    · exact Step.constant_deaf _ _
    · exact Step.constant_deaf _ _
    · exact Step.echo_deaf _
  obtain ⟨o, r', hrun, -, -, hdata, hregroup⟩ := execute_threads h hkeeps
  obtain ⟨hinputs, o', r₂', hrun', hsame⟩ := hregroup p' ⟨[], ()⟩ h' hkeeps' rfl hdeaf rfl
  exact ⟨⟨h, hkeeps⟩, ⟨h', hkeeps'⟩, rfl, hdeaf, hinputs, o', r₂', hrun', hsame.trans hdata⟩

/-- A task that ends with a step that yields nothing loses what it had: the last step is given the
input of the run, and with the same steps in one task it is given the latest datum. -/
theorem group_loses_data :
    let p : Pipeline Unit := ofTasks [[.constant "a" (.ok (.success (some (.text "x")))),
      .constant "b" (.ok (.success none))], [.echo "c"]]
    let p' : Pipeline Unit := ofTasks [[.constant "a" (.ok (.success (some (.text "x")))),
      .constant "b" (.ok (.success none)), .echo "c"]]
    let c : Context := .create "a.js" none .standard "run"
    p.Smooth c none ⟨[], ()⟩ ∧ p'.Smooth c none ⟨[], ()⟩ ∧ p'.steps = p.steps ∧
    (p.performed c none ⟨[], ()⟩).map Act.input = [none, some (.text "x"), none] ∧
    (p'.performed c none ⟨[], ()⟩).map Act.input = [none, some (.text "x"), some (.text "x")] ∧
    (∃ o r', Leaves (p.execute c none) ⟨[], ()⟩ (.ok o) r' ∧ o.data = none) ∧
    ∃ o r', Leaves (p'.execute c none) ⟨[], ()⟩ (.ok o) r' ∧ o.data = some (.text "x") :=
  ⟨ofTasks_smooth (by simp) (by simp) rfl, ofTasks_smooth (by simp) (by simp) rfl, rfl, rfl, rfl,
    ⟨_, _, rfl, rfl⟩, _, _, rfl, rfl⟩

end Pipeline

end TestMigration
