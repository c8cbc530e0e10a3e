import TestMigration.Proofs.Modern

/-! Scripts that pass through a conversion untouched. Where no pass has anything to do, each still looks
at the script and may report; two of them report that there was nothing to convert, and that is all that
comes of the run. -/

namespace TestMigration

/-! ## Runs that only report -/

namespace Pass

variable {α β : Type} {s : Session} {a : α} {fs : List Diagnostic}

/-- The session with further findings. -/
def told (s : Session) (fs : List Diagnostic) : Session := { s with findings := s.findings ++ fs }

/-- From the session the pass answers, reports the findings and does nothing else. -/
def Tells (m : Pass α) (s : Session) (a : α) (fs : List Diagnostic) : Prop := m s = .ok a (told s fs)

theorem told_nil (s : Session) : told s [] = s := by
  unfold told
  rw [List.append_nil]

theorem told_told (s : Session) (fs gs : List Diagnostic) :
    told (told s fs) gs = told s (fs ++ gs) := by
  unfold told
  rw [List.append_assoc]

theorem tells_pure (s : Session) (a : α) : Tells (pure a) s a [] := by
  unfold Tells
  rw [told_nil]
  rfl

theorem Tells.bind {m : Pass α} {next : α → Pass β} {b : β} {gs : List Diagnostic}
    (hm : Tells m s a fs) (hn : Tells (next a) (told s fs) b gs) :
    Tells (m >>= next) s b (fs ++ gs) := by
  unfold Tells at *
  rw [Leaves.of_bind_ok hm, hn, told_told]

/-- A step that reports nothing. -/
theorem Tells.silent_bind {m : Pass α} {next : α → Pass β} {b : β} (hm : Tells m s a [])
    (hn : Tells (next a) s b fs) : Tells (m >>= next) s b fs := by
  rw [← told_nil s] at hn
  exact hm.bind hn

/-- Steps that report nothing, after one that may. -/
theorem Tells.bind_silent {m : Pass α} {next : α → Pass β} {b : β} (hm : Tells m s a fs)
    (hn : Tells (next a) (told s fs) b []) : Tells (m >>= next) s b fs := by
  rw [← List.append_nil fs]
  exact hm.bind hn

theorem tells_lift {edit : Editing α} (h : edit s.document = .ok a s.document) :
    Tells (lift edit) s a [] := by
  unfold Tells lift
  rw [h, told_nil]

theorem tells_look {l : Looking α} (h : l s.document = .ok a) : Tells (liftM l : Pass α) s a [] :=
  tells_lift (still_look.mpr h)

theorem tells_report (s : Session) (code : DiagnosticCode) (message : String) :
    Tells (report code message) s () [⟨code, message, .warning, s.file, none⟩] := rfl

theorem tells_mapM {f : α → Pass β} {g : α → β} {as : List α} (h : ∀ a ∈ as, Tells (f a) s (g a) []) :
    Tells (as.mapM f) s (as.map g) [] := by
  induction as with
  | nil => exact tells_pure s []
  | cons a as ih =>
    obtain ⟨ha, has⟩ := List.forall_mem_cons.mp h
    rw [List.mapM_cons]
    exact ha.silent_bind ((ih has).silent_bind (tells_pure s _))

/-- The pass reports nothing. -/
def Mute (m : Pass α) : Prop :=
  Relates (fun s s' => s'.findings = s.findings ∧ s'.file = s.file) m

theorem mute_stepwise : Stepwise Pass @Mute :=
  relates_stepwise (fun _ => ⟨rfl, rfl⟩) fun h h' => ⟨h'.1.trans h.1, h'.2.trans h.2⟩

theorem mute_lift (edit : Editing α) : Mute (lift edit) := by
  intro s x s' h
  obtain ⟨d, -, rfl⟩ := lift_leaves h
  exact ⟨rfl, rfl⟩

theorem mute_replaceWith (p : Pattern) (build : Handle → Looking (Option Text)) :
    Mute (do (← (MatchSet.ofTree p : Looking _)).replaceWith build) := by
  change Mute (lift (do (← (MatchSet.ofTree p : Looking _)).replaceWith build))
  exact mute_lift _

theorem mute_pure (a : α) : Mute (pure a) := mute_stepwise.pure a

theorem Mute.bind {m : Pass α} {next : α → Pass β} (hm : Mute m) (hn : ∀ a, Mute (next a)) :
    Mute (m >>= next) := mute_stepwise.bind hm hn

/-- A pass that reports nothing does nothing at all where it can leave the document alone. -/
theorem Idles.tells {m : Pass α} {R : Document → α → Prop} (hm : Idles m R) (hmute : Mute m)
    (h : s.document.batch = none) (hR : R s.document a) : Tells m s a [] := by
  obtain ⟨s', hrun, hd⟩ := (hm.stays s a h).mpr hR
  obtain ⟨hfindings, hfile⟩ := hmute s (.ok a) s' hrun
  obtain rfl : s' = s := by
    cases s
    cases s'
    congr
  unfold Tells
  rw [told_nil]
  exact hrun

end Pass

open Pass (Tells tells_pure tells_look tells_report tells_mapM Mute mute_lift mute_pure mute_replaceWith)

/-! ## What the passes report -/

/-- There is nothing to convert, by import and by render call. -/
def nothingFound (file : Option String) : List Diagnostic :=
  [⟨.missingLegacyImport, "No import from 'enzyme' found", .warning, file, none⟩,
    ⟨.missingRenderCall, "No mount or shallow call found", .warning, file, none⟩]

section Passes

variable {o : ConversionOptions} {file : Option String} {s : Session}

theorem Import.tells_exchange (hclosed : s.document.batch = none) (attr : Text) (emitSetup : Bool) :
    Tells (Pass.lift (Document.batched (exchange [] (header [] attr emitSetup)))) s
      ((), { Batch.open' s.document.generation with committed := true }) [] :=
  Pass.tells_lift ((still_batched (made_exchange _ _) hclosed).mpr
    ⟨(still_exchange rfl).mpr rfl, rfl⟩)

theorem Import.tells_absolutizeIn (hclosed : s.document.batch = none)
    (h : file.isSome → AllResolved s.document) : Tells (absolutizeIn o.cwd file) s () [] := by
  refine (idles_absolutizeIn o.cwd file).tells ?_ hclosed h
  cases file with
  | none => exact mute_pure _
  | some file => exact ((mute_lift _).bind fun _ => mute_pure _).bind fun _ => mute_pure _

theorem Import.tells_reportMissing (s : Session) : Tells (reportMissing []) s ()
    [⟨.missingLegacyImport, "No import from 'enzyme' found", .warning, s.file, none⟩] := by
  have hmessage : s!"No import from '{legacyModule}' found" = "No import from 'enzyme' found" := by
    decide
  rw [← hmessage]
  exact tells_report s _ _

theorem Import.tells_replace (hclosed : s.document.batch = none) (h : Settled o file s.document) :
    Tells (Import.replace o.cwd file o.testIdAttribute o.emitSetup) s false
      [⟨.missingLegacyImport, "No import from 'enzyme' found", .warning, s.file, none⟩] := by
  refine (tells_look h.imports).silent_bind ((tells_reportMissing s).bind_silent ?_)
  refine (tells_exchange (s := Pass.told s _) hclosed _ _).silent_bind ?_
  refine (tells_absolutizeIn (s := Pass.told s _) hclosed h.specifiers).silent_bind ?_
  exact tells_pure _ _

theorem RenderCall.tells_normalise (h : Settled o file s.document) :
    Tells RenderCall.normalise s none
      [⟨.missingRenderCall, "No mount or shallow call found", .warning, s.file, none⟩] := by
  have hcalls := @tells_mapM _ _ s (fun name => do
    return (name, ← (findAll (.callTo (.exactly name)) : Looking _))) (fun name => (name, []))
    primitives fun name hname => (tells_look (h.renderCalls name hname)).silent_bind (tells_pure _ _)
  refine hcalls.silent_bind ?_
  exact (tells_report s _ _).bind_silent (tells_pure _ _)

theorem tells_untilStable {p : Pattern} (hp : p.Quiet) {build : Handle → Looking (Option Text)}
    (hb : ∀ h, Plain (build h)) (hclosed : s.document.batch = none)
    (h : Exhausted p build s.document) :
    Tells (liftM (Document.untilStable (do
      let _ ← (← (MatchSet.ofTree p : Looking _)).replaceWith build) Document.roundLimit) : Pass Nat)
      s 0 [] :=
  (idles_untilStable hp hb).tells (mute_lift _) hclosed ⟨h, rfl⟩

theorem Selector.tells_convert (hclosed : s.document.batch = none) (h : Settled o file s.document)
    (hfinds : findAll findCalls s.document = .ok []) :
    Tells (Selector.convert o.testIdAttribute) s 0 [] :=
  (tells_untilStable quiet_findCalls (plain_query? _) hclosed h.selectors).silent_bind
    ((tells_look hfinds).silent_bind (tells_pure _ _))

theorem Simulation.tells_convert (hclosed : s.document.batch = none) (h : Settled o file s.document)
    (hevents : findAll simulateCalls s.document = .ok []) : Tells Simulation.convert s 0 [] := by
  have huser : Tells (importUserEvent 0) s () [] := by
    obtain ⟨imported, himported⟩ := h.userEvent
    exact (tells_look himported).silent_bind (tells_pure _ _)
  refine (tells_untilStable quiet_namedCalls plain_userCall? hclosed h.events).silent_bind ?_
  exact (tells_look hevents).silent_bind (huser.silent_bind (tells_pure _ _))

theorem Conversion.tells_bindings (h : Settled o file s.document) : Tells bindings s (none, [])
    [⟨.missingRenderCall, "No mount or shallow call found", .warning, s.file, none⟩] :=
  (RenderCall.tells_normalise h).bind_silent ((tells_pure _ _).silent_bind (tells_pure _ _))

/-- The passes of a settled script without calls to report. -/
theorem Conversion.tells_passes (hclosed : s.document.batch = none) (h : Settled o file s.document)
    (hfinds : findAll Selector.findCalls s.document = .ok [])
    (hevents : findAll Simulation.simulateCalls s.document = .ok []) :
    Tells (passes o file) s ((none, []), nothingDone) (nothingFound s.file) := by
  refine (Import.tells_replace hclosed h).bind
    ((tells_bindings (s := Pass.told s _) h).bind_silent ?_)
  -- from here on nothing is reported, and the document is the one it was
  generalize hs : Pass.told (Pass.told s _) _ = t
  have hdocument : t.document = s.document := by rw [← hs]; rfl
  rw [← hdocument] at hclosed h hfinds hevents
  have htexts : Tells Assertion.convertText t 0 [] :=
    Assertion.idles_convertText.tells (mute_replaceWith _ _) hclosed ⟨h.texts, rfl⟩
  have hpresences : Tells Assertion.convertPresence t 0 [] :=
    Assertion.idles_convertPresence.tells (mute_replaceWith _ _) hclosed ⟨h.presences, rfl⟩
  have hchains : Tells Chain.removeIdle t 0 [] :=
    Chain.idles_removeIdle.tells (mute_lift _) hclosed ⟨h.chains, h.updates, rfl⟩
  have hnotes : Tells (Suggestion.add [] o.testIdAttribute o.snapshot) t 0 [] :=
    (Suggestion.idles_add _ _ _).tells ((mute_lift _).bind fun _ => mute_pure _) hclosed
      ⟨⟨by simp, h.findNotes, h.eventNotes⟩, rfl⟩
  exact (Selector.tells_convert hclosed h hfinds).silent_bind (htexts.silent_bind
    ((Simulation.tells_convert hclosed h hevents).silent_bind (hpresences.silent_bind
      (hchains.silent_bind (hnotes.silent_bind (tells_pure _ _))))))

end Passes

/-! ## Conversions -/

/-- What comes of a script in which there is nothing to convert: its own text, and the two findings that
say so. -/
def Conversion.untouched (source : String) (file : Option String) : Conversion where
  code := source
  renderFunction := none
  wrappers := []
  findings := nothingFound file
  statistics := nothingDone

/-- A script without a trace of the old library passes through a conversion untouched, whatever the
options: the text that comes out is the text that went in, no edit has been applied to the tree, no
render function and no wrapper has been found, nothing is counted, and the only findings are that there
is no import and no render call to convert. -/
theorem conversion_of_modern (o : ConversionOptions) {source : String} {file : Option String}
    {d : Document} (hread : Document.ofString file source = .ok d) (hspelt : d.spelt = true)
    (hmodern : Modern file d) :
    Conversion.ofSource o source file = .ok (.untouched source file) ∧
      ∃ s, Conversion.run o ⟨d, file, []⟩ = .ok (.untouched source file) s ∧ s.document = d ∧
        s.document.generation = 0 := by
  have hlegible := Document.legible_ofString hread
  obtain ⟨hpath, hsource⟩ := Conversion.ofString_ok hread
  obtain ⟨hsound, hclosed⟩ := Document.sound_of_ofBytes hread
  have hpasses := Conversion.tells_passes (s := ⟨d, file, []⟩) hclosed
    (hmodern.settled hlegible hspelt o) (hmodern.found_no_find hlegible)
    (hmodern.found_no_simulate hlegible)
  have hrun : Conversion.run o ⟨d, file, []⟩ =
      .ok (.untouched source file) ⟨d, file, nothingFound file⟩ := by
    refine Conversion.run_ok.mpr ⟨((none, []), Conversion.nothingDone), ?_,
      Conversion.decode_ok.mpr hsource, rfl⟩
    rw [hpath]
    exact hpasses
  exact ⟨Conversion.ofSource_ok.mpr ⟨d, _, hread, hrun⟩, _, hrun, rfl, hsound.generation⟩

/-- A test that has nothing to do with the old library. -/
def sumTest : String :=
  "import \x7b sum \x7d from 'math';\n\njest.mock('log');\n\n" ++
    "describe('sum', () => \x7b\n  it('adds', () => \x7b\n" ++
    "    expect(sum(1, 2)).toBe(3);\n    expect(sum).not.toBeFalsy();\n  \x7d);\n\x7d);\n"

/-- Assertions are no trace of the old library, and neither are imports and mocks by name. -/
theorem conversion_of_sumTest : ∃ d,
    Document.ofString (some "/project/sum.test.js") sumTest = .ok d ∧ d.spelt = true ∧
      Modern (some "/project/sum.test.js") d ∧
      Conversion.ofSource { cwd := ⟨0, []⟩ } sumTest (some "/project/sum.test.js") =
        .ok (.untouched sumTest (some "/project/sum.test.js")) ∧
      ∃ s, Conversion.run { cwd := ⟨0, []⟩ } ⟨d, some "/project/sum.test.js", []⟩ =
        .ok (.untouched sumTest (some "/project/sum.test.js")) s ∧ s.document = d ∧
        s.document.generation = 0 := by
  have hscript : ((Document.ofString (some "/project/sum.test.js") sumTest).toOption.any fun d =>
      d.spelt && decide (Modern (some "/project/sum.test.js") d)) = true := by decide +kernel
  cases hread : Document.ofString (some "/project/sum.test.js") sumTest with
  | error e =>
    rw [hread] at hscript
    cases hscript
  | ok d =>
    rw [hread] at hscript
    obtain ⟨hspelt, hmodern⟩ := Bool.and_eq_true_iff.mp hscript
    have hmodern := of_decide_eq_true hmodern
    exact ⟨d, rfl, hspelt, hmodern, conversion_of_modern _ hread hspelt hmodern⟩

end TestMigration
