import TestMigration.Proofs.Turn

/-! The conversion of a source text in memory, against the engine on its own. A pipeline hands on the
data and the warnings of its parts and the error that ends one of them, and publishes no findings
but those of the engine. -/

namespace TestMigration

def Event.isFinding (e : Event) : Bool := e.kind == .diagnostic

/-- Whatever was published before, the work answers `x` and leaves the state `s'`, and these are the
findings among the events it publishes. -/
def Tells {σ α : Type} (work : Work σ α) (s : σ) (x : Except Failure α) (findings : List Event)
    (s' : σ) : Prop :=
  ∀ before, ∃ events, Leaves work ⟨before, s⟩ x ⟨before ++ events, s'⟩ ∧
    events.filter Event.isFinding = findings

/-- The work ends with an outcome that is an error and carries the failure. -/
def Errs {σ α : Type} (work : Work σ (Outcome α)) (s : σ) (e : Failure) (findings : List Event)
    (s' : σ) : Prop :=
  ∃ o, Tells work s (.ok o) findings s' ∧ o.isError = true ∧ o.error = some e

variable {σ : Type}

theorem Errs.of_tells {α : Type} {work : Work σ (Outcome α)} {s s' : σ} {e : Failure}
    {metadata : Entries} {findings : List Event}
    (h : Tells work s (.ok (.failure e metadata)) findings s') : Errs work s e findings s' :=
  ⟨_, h, rfl, rfl⟩

namespace Tells

variable {α β : Type} {s s' t : σ} {x : Except Failure α} {findings more : List Event}

theorem pure (a : α) (s : σ) : Tells (Pure.pure a : Work σ α) s (.ok a) [] s := by
  intro before
  exact ⟨[], by rw [List.append_nil]; rfl, rfl⟩

theorem throw (e : Failure) (s : σ) : Tells (MonadExcept.throw e : Work σ α) s (.error e) [] s := by
  intro before
  exact ⟨[], by rw [List.append_nil]; rfl, rfl⟩

theorem publish (c : Context) (detail : EventDetail) (s : σ) :
    Tells (Work.publish c detail) s (.ok ()) ([⟨c, detail⟩].filter Event.isFinding) s :=
  fun _ => ⟨[⟨c, detail⟩], rfl, rfl⟩

theorem bind {m : Work σ β} {f : β → Work σ α} {b : β} (h : Tells m s (.ok b) findings t)
    (h' : Tells (f b) t x more s') : Tells (m >>= f) s x (findings ++ more) s' := by
  intro before
  obtain ⟨first, hfirst, rfl⟩ := h before
  obtain ⟨rest, hrest, rfl⟩ := h' (before ++ first)
  refine ⟨first ++ rest, ?_, List.filter_append ..⟩
  unfold Leaves at hrest ⊢
  rw [hfirst.of_bind_ok, hrest, List.append_assoc]

/-- The first part publishes no finding. -/
theorem bind_quiet {m : Work σ β} {f : β → Work σ α} {b : β} (h : Tells m s (.ok b) [] t)
    (h' : Tells (f b) t x findings s') : Tells (m >>= f) s x findings s' := h.bind h'

theorem bind_error {m : Work σ β} {f : β → Work σ α} {e : Failure}
    (h : Tells m s (.error e) findings s') : Tells (m >>= f) s (.error e) findings s' := by
  intro before
  obtain ⟨events, hevents, rfl⟩ := h before
  exact ⟨events, hevents.of_bind_error, rfl⟩

theorem tryCatch {m : Work σ α} {handler : Failure → Work σ α} {a : α}
    (h : Tells m s (.ok a) findings s') :
    Tells (MonadExcept.tryCatch m handler) s (.ok a) findings s' := by
  intro before
  obtain ⟨events, hevents, rfl⟩ := h before
  refine ⟨events, ?_, rfl⟩
  change EStateM.tryCatch m handler _ = _
  unfold EStateM.tryCatch
  rw [show m _ = _ from hevents]

theorem tryCatch_error {m : Work σ α} {handler : Failure → Work σ α} {e : Failure}
    (h : Tells m s (.error e) findings t) (h' : Tells (handler e) t x more s') :
    Tells (MonadExcept.tryCatch m handler) s x (findings ++ more) s' := by
  intro before
  obtain ⟨first, hfirst, rfl⟩ := h before
  obtain ⟨rest, hrest, rfl⟩ := h' (before ++ first)
  refine ⟨first ++ rest, ?_, List.filter_append ..⟩
  change EStateM.tryCatch m handler _ = _
  unfold EStateM.tryCatch
  rw [show m _ = _ from hfirst]
  unfold Leaves at hrest
  rw [List.append_assoc] at hrest
  exact hrest

/-- An event that is no finding. -/
theorem publish_bind {c : Context} {detail : EventDetail} {f : Unit → Work σ α}
    (hd : (detail.kind == .diagnostic) = false) (h : Tells (f ()) s x findings s') :
    Tells (Work.publish c detail >>= f) s x findings s' := by
  have hquiet : [(⟨c, detail⟩ : Event)].filter Event.isFinding = [] := by
    simpa [Event.isFinding, Event.kind] using hd
  have hboth := (Tells.publish c detail s).bind h
  rwa [hquiet, List.nil_append] at hboth

theorem get_bind {f : Running σ → Work σ α}
    (h : ∀ before, Tells (f ⟨before, s⟩) s x findings s') :
    Tells (MonadState.get >>= f) s x findings s' := fun before => h before before

theorem onState {m : EStateM Failure σ α} (h : Leaves m s x s') : Tells (Work.onState m) s x [] s' := by
  intro before
  refine ⟨[], ?_, rfl⟩
  unfold Leaves Work.onState at *
  dsimp only
  rw [h, List.append_nil]
  cases x <;> rfl

theorem run_eq {work : Work σ α} (h : Tells work s x findings s') :
    ∃ events, work.run s = (x, ⟨events, s'⟩) ∧ events.filter Event.isFinding = findings := by
  obtain ⟨events, hevents, hfindings⟩ := h []
  exact ⟨events, run_of_leaves hevents, hfindings⟩

end Tells

/-! ## Parts -/

@[simp] theorem Outcome.warnings_settled {α : Type} (data : Option α) (warnings : List String)
    (metadata : Entries) : (settled data warnings metadata).warnings = warnings := by
  unfold settled
  split
  · rename_i hempty
    exact (List.isEmpty_iff.mp hempty).symm
  · rfl

theorem Outcome.status_settled {α : Type} (data : Option α) (warnings : List String)
    (metadata : Entries) : (settled data warnings metadata).status =
      if warnings.isEmpty then .success else .warning := by
  unfold settled
  split <;> rfl

section Parts

variable {c c₀ : Context} {input : Option Datum} {s s' u : σ} {o : Outcome Datum} {e : Failure}
  {findings more : List Event} {x : Except Failure (Outcome Datum)}

theorem Step.run_tells {p : Step σ} (h : Tells (p.execute c input) s (.ok o) findings s') :
    Tells (p.run c input) s (.ok o) findings s' := by
  refine Tells.publish_bind rfl ?_
  rw [← List.append_nil findings]
  exact h.tryCatch.bind (Tells.publish_bind rfl (.pure o s'))

theorem Step.run_errs_of_error {p : Step σ}
    (h : Tells (p.execute c input) s (.error e) findings s') :
    Errs (p.run c input) s e findings s' := by
  apply Errs.of_tells
  refine Tells.publish_bind rfl ?_
  rw [← List.append_nil findings, ← List.append_nil (findings ++ [])]
  refine Tells.bind (b := .failure e [("step", .text p.name), ("context", .text c.runId)]) (t := s')
    (h.tryCatch_error ?_) ?_
  · exact Tells.publish_bind rfl (.pure _ s')
  · exact Tells.publish_bind rfl (.pure _ s')

theorem Step.run_errs {p : Step σ} (h : Errs (p.execute c input) s e findings s') :
    Errs (p.run c input) s e findings s' := by
  obtain ⟨o, ho, hfailed, he⟩ := h
  exact ⟨o, Step.run_tells ho, hfailed, he⟩

theorem Task.executeFrom_tells {t : Task σ} {p : Step σ} {rest : List (Step σ)}
    {done : List (Outcome Datum)} (h : Tells (p.run c input) s (.ok o) findings u)
    (hok : o.isError = false)
    (h' : Tells (t.executeFrom c rest (done ++ [o]) (o.nextInput input)) u x more s') :
    Tells (t.executeFrom c (p :: rest) done input) s x (findings ++ more) s' := by
  refine h.bind ?_
  rw [hok, if_neg Bool.false_ne_true]
  exact h'

theorem Task.executeFrom_errs {t : Task σ} {p : Step σ} {rest : List (Step σ)}
    {done : List (Outcome Datum)} (h : Errs (p.run c input) s e findings s') :
    Errs (t.executeFrom c (p :: rest) done input) s e findings s' := by
  obtain ⟨o, ho, hfailed, he⟩ := h
  apply Errs.of_tells
  rw [← List.append_nil findings]
  refine ho.bind ?_
  rw [hfailed, if_pos rfl, he]
  exact .pure _ s'

theorem Task.executeFrom_errs_later {t : Task σ} {p : Step σ} {rest : List (Step σ)}
    {done : List (Outcome Datum)} (h : Tells (p.run c input) s (.ok o) findings u)
    (hok : o.isError = false)
    (h' : Errs (t.executeFrom c rest (done ++ [o]) (o.nextInput input)) u e more s') :
    Errs (t.executeFrom c (p :: rest) done input) s e (findings ++ more) s' := by
  obtain ⟨o', ho', hfailed, he⟩ := h'
  exact ⟨o', Task.executeFrom_tells h hok ho', hfailed, he⟩

theorem Outcome.ofParts_singleton {α : Type} (input : Option α) (o : Outcome α) :
    ofParts input [o] = .settled o.data o.warnings o.metadata := by
  simp [ofParts, combine]

/-- A job with one task and its input, when the task comes to something. -/
theorem Job.execute_tells {j : Job σ} {t : Task σ} {input' : Option Datum} (ht : j.tasks = [t])
    (hp : Tells (j.prepare c input) s (.ok (.ok input')) [] u)
    (h : Tells (t.execute c input') u (.ok o) findings s') (hok : o.isError = false) :
    Tells (j.execute c input) s (.ok (.settled o.data o.warnings o.metadata)) findings s' := by
  have hend : Tells (j.executeFrom c [] [o] (o.handOn c input').1 (o.handOn c input').2) s'
      (.ok (.settled o.data o.warnings o.metadata)) [] s' := by
    unfold Job.executeFrom
    rw [Outcome.ofParts_singleton]
    exact Tells.publish_bind rfl (.pure _ s')
  refine hp.bind_quiet (Tells.publish_bind rfl ?_)
  rw [ht, ← List.append_nil findings]
  refine h.bind ?_
  rw [hok, if_neg Bool.false_ne_true]
  exact hend

theorem Job.execute_errs {j : Job σ} {t : Task σ} {input' : Option Datum} (ht : j.tasks = [t])
    (hp : Tells (j.prepare c input) s (.ok (.ok input')) [] u)
    (h : Errs (t.execute c input') u e findings s') :
    Errs (j.execute c input) s e findings s' := by
  obtain ⟨o, ho, hfailed, he⟩ := h
  apply Errs.of_tells
  refine hp.bind_quiet (Tells.publish_bind rfl ?_)
  rw [ht, ← List.append_nil findings]
  refine ho.bind ?_
  rw [hfailed, if_pos rfl, he]
  exact Tells.publish_bind rfl (.pure _ s')

theorem Pipeline.executeFrom_tells {p : Pipeline σ} {j : Job σ} {rest : List (Job σ)}
    {done : List (Outcome Datum)} (h : Tells (j.execute c input) s (.ok o) findings u)
    (hok : o.isError = false)
    (h' : Tells (p.executeFrom c₀ rest (done ++ [o]) (o.handOn c input).1 (o.handOn c input).2)
      u x more s') :
    Tells (p.executeFrom c₀ (j :: rest) done c input) s x (findings ++ more) s' := by
  refine h.bind ?_
  rw [hok, if_neg Bool.false_ne_true]
  exact h'

theorem Pipeline.executeFrom_nil_tells {p : Pipeline σ} {done : List (Outcome Datum)}
    (h : .ofParts input done = o) : Tells (p.executeFrom c₀ [] done c input) s (.ok o) [] s := by
  rw [← h]
  exact Tells.publish_bind rfl (.pure _ s)

theorem Pipeline.executeFrom_errs {p : Pipeline σ} {j : Job σ} {rest : List (Job σ)}
    {done : List (Outcome Datum)} (h : Errs (j.execute c input) s e findings s') :
    Errs (p.executeFrom c₀ (j :: rest) done c input) s e findings s' := by
  obtain ⟨o, ho, hfailed, he⟩ := h
  apply Errs.of_tells
  rw [← List.append_nil findings]
  refine ho.bind ?_
  rw [hfailed, if_pos rfl, he]
  exact Tells.publish_bind rfl (.pure _ s')

end Parts

/-! ## The steps -/

/-- The events of findings. -/
def Context.tellings (c : Context) (findings : List Diagnostic) : List Event :=
  findings.map fun finding => ⟨c, .diagnostic finding⟩

namespace Conversion

theorem ofSource_of_ofString_error {o : ConversionOptions} {source : String} {file : Option String}
    {e : Failure} (h : Document.ofString file source = .error e) : ofSource o source file = .error e := by
  unfold ofSource
  rw [h]
  rfl

theorem ofSource_of_run_error {o : ConversionOptions} {source : String} {file : Option String}
    {d : Document} {e : Failure} {s : Session} (h : Document.ofString file source = .ok d)
    (hrun : run o ⟨d, file, []⟩ = .error e s) : ofSource o source file = .error e := by
  unfold ofSource
  rw [h]
  dsimp only [bind, Except.bind]
  rw [hrun]
  rfl

/-- A conversion fails where the source does not parse or a pass fails. -/
theorem ofSource_error {o : ConversionOptions} {source : String} {file : Option String}
    {e : Failure} (h : ofSource o source file = .error e) :
    Document.ofString file source = .error e ∨
      ∃ d s, Document.ofString file source = .ok d ∧ run o ⟨d, file, []⟩ = .error e s := by
  cases hd : Document.ofString file source with
  | error e' =>
    rw [ofSource_of_ofString_error hd] at h
    cases h
    exact .inl rfl
  | ok d =>
    cases hrun : run o ⟨d, file, []⟩ with
    | error e' s =>
      rw [ofSource_of_run_error hd hrun] at h
      cases h
      exact .inr ⟨d, s, rfl, hrun⟩
    | ok c s =>
      rw [ofSource_ok.mpr ⟨d, s, hd, hrun⟩] at h
      cases h

end Conversion

section Steps

variable {c : Context} {disk : Disk} {d : Document} {e : Failure}

theorem Stage.parse_tells {name source : String}
    (h : Document.ofString (some c.sourceFile) source = .ok d) :
    Tells ((Stage.parse name).execute c (some (.text source))) disk
      (.ok (.success (some (.document d)))) [] disk := by
  unfold Stage.parse
  dsimp only [Datum.text]
  rw [h]
  exact .pure _ disk

theorem Stage.parse_errs {name source : String}
    (h : Document.ofString (some c.sourceFile) source = .error e) :
    Errs ((Stage.parse name).run c (some (.text source))) disk e [] disk := by
  by_cases hkind : (e.kind == .parse) = true
  · apply Step.run_errs
    apply Errs.of_tells
    unfold Stage.parse
    dsimp only [Datum.text]
    rw [h]
    dsimp only
    rw [if_pos hkind]
    exact .pure _ disk
  · apply Step.run_errs_of_error
    unfold Stage.parse
    dsimp only [Datum.text]
    rw [h]
    dsimp only
    rw [if_neg hkind]
    exact .throw _ disk

theorem Stage.publishFindings_tells (findings : List Diagnostic) :
    Tells (Stage.publishFindings c findings) disk (.ok ()) (c.tellings findings) disk := by
  unfold Stage.publishFindings
  induction findings with
  | nil => exact .pure _ disk
  | cons finding rest ih => exact (Tells.publish c (.diagnostic finding) disk).bind ih

theorem Stage.convert_tells (name : String) {conversion : Conversion} {s : Session}
    (h : Conversion.run (Migration.optionsOf c.settings disk.cwd c.snapshot?)
      ⟨d, some c.sourceFile, []⟩ = .ok conversion s) :
    ∃ metadata, Tells ((Stage.convert name).execute c (some (.document d))) disk
      (.ok (.settled (some (.document s.document)) conversion.warnings metadata))
      (c.tellings conversion.findings) disk := by
  obtain ⟨r, -, -, hc⟩ := Conversion.run_ok.mp h
  have hfindings : s.findings = conversion.findings := by rw [hc]
  refine ⟨[("render_function", .ofOption conversion.renderFunction),
    ("wrapper_names", .ofStrings conversion.wrappers),
    ("statistics", .record conversion.statistics.toEntries)], Tells.get_bind fun before => ?_⟩
  unfold Migration.optionsOf at h
  dsimp only
  rw [h, ← hfindings, ← List.append_nil (c.tellings _)]
  exact (Stage.publishFindings_tells s.findings).bind (Tells.publish_bind rfl (.pure _ disk))

theorem Stage.convert_errs {name : String} {s : Session}
    (h : Conversion.run (Migration.optionsOf c.settings disk.cwd c.snapshot?)
      ⟨d, some c.sourceFile, []⟩ = .error e s) :
    Errs ((Stage.convert name).run c (some (.document d))) disk e (c.tellings s.findings) disk := by
  unfold Migration.optionsOf at h
  by_cases hkind : e.kind.isMigration = true
  · apply Step.run_errs
    apply Errs.of_tells
    refine Tells.get_bind fun before => ?_
    dsimp only
    rw [h, ← List.append_nil (c.tellings _)]
    refine (Stage.publishFindings_tells s.findings).bind ?_
    rw [if_pos hkind]
    exact .pure _ disk
  · apply Step.run_errs_of_error
    refine Tells.get_bind fun before => ?_
    dsimp only
    rw [h, ← List.append_nil (c.tellings _)]
    refine (Stage.publishFindings_tells s.findings).bind ?_
    rw [if_neg hkind]
    exact .throw _ disk

theorem Stage.generate_tells {name code : String} (h : d.code = .ok code) :
    Tells ((Stage.generate name).execute c (some (.document d))) disk
      (.ok (.success (some (.text code)))) [] disk := by
  unfold Stage.generate
  dsimp only
  rw [h]
  exact .pure _ disk

end Steps

/-! ## The collector -/

section Collector

variable (c : Context) (disk : Disk) {source : String}

theorem Phase.prepare_tells :
    Tells (Phase.collector.prepare c (some (.text source))) disk (.ok (.ok (some (.text source)))) []
      disk := .pure _ disk

/-- Where the engine converts the source, the collector hands on its code and its warnings. -/
theorem Phase.collector_tells {conversion : Conversion}
    (h : Conversion.ofSource (Migration.optionsOf c.settings disk.cwd c.snapshot?) source
      (some c.sourceFile) = .ok conversion) :
    Tells (Phase.collector.execute c (some (.text source))) disk
      (.ok (.settled (some (.text conversion.code)) conversion.warnings []))
      (c.tellings conversion.findings) disk := by
  obtain ⟨d, s, hd, hrun⟩ := Conversion.ofSource_ok.mp h
  obtain ⟨-, -, hcode, -⟩ := Conversion.run_ok.mp hrun
  obtain ⟨metadata, hconvert⟩ := Stage.convert_tells "transform_enzyme" hrun
  let converted : Outcome Datum :=
    .settled (some (.document s.document)) conversion.warnings metadata
  have hconverted : converted.isError = false := by simp [converted]
  have hnext : converted.nextInput (some (.document d)) = some (.document s.document) :=
    Outcome.nextInput_of_data hconverted (by simp [converted]) _
  have htask : Tells (Task.execute ⟨"conversion", [Stage.parse "parse_source",
      Stage.convert "transform_enzyme", Stage.generate "generate_code"]⟩ c (some (.text source))) disk
      (.ok (.settled (some (.text conversion.code)) conversion.warnings []))
      (c.tellings conversion.findings) disk := by
    rw [← List.nil_append (c.tellings _), ← List.append_nil (c.tellings _)]
    refine Task.executeFrom_tells (Step.run_tells (Stage.parse_tells hd)) rfl ?_
    refine Task.executeFrom_tells (Step.run_tells hconvert) hconverted ?_
    rw [← List.append_nil []]
    change Tells (Task.executeFrom _ c _ _ (converted.nextInput (some (.document d)))) _ _ _ _
    rw [hnext]
    refine Task.executeFrom_tells (Step.run_tells (Stage.generate_tells hcode)) rfl ?_
    have hparts : Outcome.ofParts (some (Datum.text conversion.code))
        [.success (some (.document d)), converted, .success (some (.text conversion.code))] =
          .settled (some (.text conversion.code)) conversion.warnings [] := by
      simp [Outcome.ofParts, Outcome.combine, converted, Outcome.success]
    exact hparts ▸ .pure _ disk
  have hjob := Job.execute_tells rfl (Phase.prepare_tells c disk) htask (by simp)
  simpa using hjob

/-- Where the engine fails, so does the collector, with the same failure. -/
theorem Phase.collector_errs {e : Failure}
    (h : Conversion.ofSource (Migration.optionsOf c.settings disk.cwd c.snapshot?) source
      (some c.sourceFile) = .error e) :
    ∃ findings, Errs (Phase.collector.execute c (some (.text source))) disk e findings disk := by
  rcases Conversion.ofSource_error h with hd | ⟨d, s, hd, hrun⟩
  · exact ⟨_, Job.execute_errs rfl (Phase.prepare_tells c disk)
      (Task.executeFrom_errs (Stage.parse_errs hd))⟩
  · refine ⟨[] ++ c.tellings s.findings, Job.execute_errs rfl (Phase.prepare_tells c disk) ?_⟩
    refine Task.executeFrom_errs_later (Step.run_tells (Stage.parse_tells hd)) rfl ?_
    exact Task.executeFrom_errs (Stage.convert_errs hrun)

end Collector

namespace Migration

/-- What a conversion in memory answers and publishes, against what the engine makes of the source:
the outcome has the engine's code and warnings and the findings are published in their order; or it
is an error and carries the engine's failure. -/
structure Agrees (c : Context) (engine : Except Failure Conversion) (o : Outcome Datum)
    (findings : List Event) : Prop where
  succeeds : o.isError = false ↔ ∃ conversion, engine = .ok conversion
  data : ∀ conversion, engine = .ok conversion → o.data = some (.text conversion.code)
  warnings : ∀ conversion, engine = .ok conversion → o.warnings = conversion.warnings
  status : ∀ conversion, engine = .ok conversion →
    o.status = if conversion.warnings.isEmpty then .success else .warning
  findings : ∀ conversion, engine = .ok conversion → findings = c.tellings conversion.findings
  error : ∀ e, engine = .error e → o.error = some e

theorem convertSource_eq {source file runId : String} {s : Settings}
    (h : s.text? .snapshotFile = none) :
    convertSource source file s runId =
      sourcePipeline.execute (.create file (some file) s runId) (some (.text source)) := by
  unfold convertSource loadSnapshot
  rw [h]
  rfl

theorem agrees_ok (c : Context) (conversion : Conversion) :
    Agrees c (.ok conversion)
      (.settled (some (.text conversion.code)) conversion.warnings [])
      (c.tellings conversion.findings) := by
  refine ⟨?_, ?_, ?_, ?_, ?_, nofun⟩
  · simp
  · rintro _ ⟨⟩
    simp
  · rintro _ ⟨⟩
    simp
  · rintro _ ⟨⟩
    exact Outcome.status_settled ..
  · rintro _ ⟨⟩
    rfl

theorem agrees_error (c : Context) {e : Failure} {o : Outcome Datum} (hfailed : o.isError = true)
    (he : o.error = some e) (findings : List Event) : Agrees c (.error e) o findings := by
  refine ⟨?_, nofun, nofun, nofun, nofun, ?_⟩
  · simp [hfailed]
  · rintro _ ⟨⟩
    exact he

theorem sourcePipeline_tells (c : Context) (disk : Disk) {source : String} {conversion : Conversion}
    (h : Conversion.ofSource (optionsOf c.settings disk.cwd c.snapshot?) source (some c.sourceFile) =
      .ok conversion) :
    Tells (sourcePipeline.execute c (some (.text source))) disk
      (.ok (.settled (some (.text conversion.code)) conversion.warnings []))
      (c.tellings conversion.findings) disk := by
  refine Tells.publish_bind rfl ?_
  change Tells (sourcePipeline.executeFrom c [Phase.collector] [] c _) _ _ _ _
  rw [← List.append_nil (c.tellings _)]
  refine Pipeline.executeFrom_tells (Phase.collector_tells c disk h) (by simp) ?_
  exact Pipeline.executeFrom_nil_tells (by simp [Outcome.ofParts_singleton])

/-- Where the engine fails, so does every pipeline that begins with the collector. -/
theorem collecting_errs {p : Pipeline Disk} {rest : List (Job Disk)}
    (hp : p.jobs = Phase.collector :: rest) (c : Context) (disk : Disk) {source : String} {e : Failure}
    (h : Conversion.ofSource (optionsOf c.settings disk.cwd c.snapshot?) source (some c.sourceFile) =
      .error e) :
    ∃ findings, Errs (p.execute c (some (.text source))) disk e findings disk := by
  obtain ⟨findings, hcollector⟩ := Phase.collector_errs c disk h
  have hjobs : Errs (p.executeFrom c p.jobs [] c (some (.text source))) disk e findings disk := by
    rw [hp]
    exact Pipeline.executeFrom_errs hcollector
  obtain ⟨o, ho, hfailed, he⟩ := hjobs
  exact ⟨findings, o, Tells.publish_bind rfl ho, hfailed, he⟩

end Migration

end TestMigration
