import TestMigration.Proofs.Agreement

/-! The migration of a file, against the conversion of its text in memory. Both go through the same
collector, so they succeed together and come to the same code; but a file is read as text, and there
every line break has become a line feed before anything is converted. -/

namespace TestMigration

open Filing (ensureParent writeText)

/-! ## Reading a file -/

namespace Blank

/-- A text as it is read from a file that holds it. -/
def asRead (text : String) : String := String.ofList (unifyBreaks text.toList)

theorem unifyBreaks_of_none {cs : List Char} (h : '\r' ∉ cs) : unifyBreaks cs = cs := by
  induction cs with
  | nil => rfl
  | cons c rest ih =>
    obtain ⟨hc, hrest⟩ := not_or.mp (mt List.mem_cons.mpr h)
    rw [unifyBreaks, ih hrest]
    · rintro rest' rfl
      exact absurd rfl hc
    · rintro rfl
      exact absurd rfl hc

theorem asRead_of_none {text : String} (h : '\r' ∉ text.toList) : asRead text = text := by
  rw [asRead, unifyBreaks_of_none h, String.ofList_toList]

end Blank

theorem textOfBytes_of_valid {bytes : ByteArray} {text : String}
    (h : String.fromUTF8? bytes = some text) : textOfBytes bytes = .ok (Blank.asRead text) := by
  unfold textOfBytes
  rw [h]
  dsimp only
  split
  · rfl
  · rename_i hnone
    rw [Blank.asRead_of_none (by simpa using hnone)]

namespace Migration

/-! ## Files that can be converted -/

/-- Source and target have names that can be used, and the source holds a text that is not too
long. -/
structure Readable (s : Settings) (file : String) (d : Disk) (text : String) : Prop where
  named : ∃ source target, PathName.ofSource file = .ok source ∧ targetOf source s = .ok target
  holds : ∃ place bytes, d.find (sourceName file) = .ok place ∧ d.get? place = some (.file bytes) ∧
    String.fromUTF8? bytes = some text ∧ s.refusesSize bytes.size = .ok false

/-- Keep a copy of the source where it is its own target. -/
def secure (s : Settings) (file : String) : Filing Unit := do
  let cwd := (← get).cwd
  if s.flag .backups && targetPlace cwd s file == sourcePlace cwd file then
    Phase.keepCopy (sourceName file) (s.text? .backupRoot)
  else return ()

/-- Everything that is done to the disk to put a text into the target of a file. -/
def putOut (s : Settings) (file text : String) : Filing Unit := do
  secure s file
  ensureParent (.ofString (targetName s file))
  writeText (targetName s file) text

/-- A text can be put into the target, or nothing is to be written. Which text it is makes no
difference. -/
def Writable (s : Settings) (file : String) (d : Disk) : Prop :=
  s.flag .dryRun = true ∨ ∃ text d', Leaves (putOut s file text) d (.ok ()) d'

section Reading

variable {s : Settings} {file runId text : String} {d : Disk} {page : Option Snapshot}
  {source target : PathName}

theorem ofExcept_leaves {α : Type} {x : Except Failure α} {a : α} (h : x = .ok a) :
    Leaves (MonadExcept.ofExcept x : Filing α) d (.ok a) d := by
  rw [h]
  rfl

theorem contextOf_ok (runId : String) (hs : PathName.ofSource file = .ok source)
    (ht : targetOf source s = .ok target) (hl : Leaves (loadSnapshot s) d (.ok page) d) :
    ∃ c, Leaves (contextOf file s runId) d (.ok c) d ∧ Fits s file page c := by
  have hsource := ofSource_ok hs
  rw [hsource] at ht
  refine ⟨_, ?_, fits_create s file runId page target (targetOf_ok ht)⟩
  unfold contextOf Leaves
  rw [(ofExcept_leaves hs).of_bind_ok, hsource, (ofExcept_leaves ht).of_bind_ok, hl.of_bind_ok]
  rfl

theorem contextOf_error {e : Failure} (hs : PathName.ofSource file = .ok source)
    (ht : targetOf source s = .ok target) (hl : Leaves (loadSnapshot s) d (.error e) d) :
    Leaves (contextOf file s runId) d (.error e) d := by
  unfold contextOf Leaves
  rw [(ofExcept_leaves hs).of_bind_ok, (ofExcept_leaves ht).of_bind_ok, hl.of_bind_error]

theorem readSource_of_readable (h : Readable s file d text) :
    Leaves (readSource (sourceName file) s) d (.ok (Blank.asRead text)) d := by
  obtain ⟨place, bytes, hplace, hfile, htext, hsize⟩ := h.holds
  have hcount : Leaves (Filing.size (sourceName file)) d (.ok bytes.size) d := by
    unfold Filing.size Leaves
    rw [(Filing.find_of_ok hplace "stat").of_bind_ok, (Leaves.of_get d).of_bind_ok, hfile]
    rfl
  unfold readSource Leaves
  rw [hcount.of_bind_ok, (ofExcept_leaves hsize).of_bind_ok]
  exact Filing.readText_of_file hplace hfile (textOfBytes_of_valid htext)

end Reading

/-! ## Writing a target -/

/-- Whether a write succeeds does not depend on what is written. -/
theorem writeText_any {path text : String} {d d' : Disk}
    (h : Leaves (writeText path text) d (.ok ()) d') (other : String) :
    ∃ d'', Leaves (writeText path other) d (.ok ()) d'' := by
  obtain ⟨p, t, hfind, hwrite⟩ := h.bind_ok
  have hwrite := hwrite.get_bind
  unfold writeText Filing.writeBytes Leaves
  rw [hfind.of_bind_ok, (Leaves.of_get t).of_bind_ok]
  split at hwrite
  · cases hwrite
  · rename_i hitem
    rw [hitem]
    exact ⟨_, rfl⟩
  · rename_i hitem
    rw [hitem]
    split at hwrite
    · cases hwrite
    · rename_i hslash
      dsimp only
      rw [if_neg hslash]
      exact ⟨_, rfl⟩

section Writing

variable {s : Settings} {file code : String} {d d₁ d' : Disk} {page : Option Snapshot} {c : Context}

theorem needsCopy_eq (cwd : Route) (hc : Fits s file page c) (hdry : s.flag .dryRun = false) :
    Phase.needsCopy ⟨1, cwd⟩ c =
      (s.flag .backups && targetPlace cwd s file == sourcePlace cwd file) := by
  have hsame : ((PathName.ofString c.targetFile).resolve ⟨1, cwd⟩ ==
      (PathName.ofString c.sourceFile).resolve ⟨1, cwd⟩) =
        (targetPlace cwd s file == sourcePlace cwd file) := by
    rw [hc.target, hc.source, Bool.eq_iff_iff, beq_iff_eq, beq_iff_eq]
    exact resolve_eq_iff
  unfold Phase.needsCopy
  dsimp only
  rw [hsame, hc.settings, hdry]
  simp

theorem secureSource_tells {name : String} {input : Option Datum} (hc : Fits s file page c)
    (hdry : s.flag .dryRun = false) (h : Leaves (secure s file) d (.ok ()) d₁) :
    Tells (Phase.secureSource name c input) d (.ok (.ok input)) [] d₁ := by
  have h := h.get_bind
  refine Tells.get_bind fun before => ?_
  dsimp only at h ⊢
  rw [needsCopy_eq d.cwd hc hdry, hc.source, hc.settings]
  by_cases hneeds : (s.flag .backups && targetPlace d.cwd s file == sourcePlace d.cwd file) = true
  · rw [if_pos hneeds] at h ⊢
    refine Tells.tryCatch ?_
    exact (Tells.onState h).bind_quiet (.pure _ d₁)
  · rw [if_neg hneeds] at h ⊢
    obtain ⟨-, rfl⟩ := h.pure
    exact .pure _ d₁

theorem secureSource_tells_dry {name : String} {input : Option Datum}
    (hdry : c.settings.flag .dryRun = true) :
    Tells (Phase.secureSource name c input) d (.ok (.ok input)) [] d := by
  refine Tells.get_bind fun before => ?_
  have hnone : Phase.needsCopy ⟨1, d.cwd⟩ c = false := by
    unfold Phase.needsCopy
    dsimp only
    rw [hdry, Bool.not_true, Bool.and_false]
  dsimp only
  rw [hnone, if_neg Bool.false_ne_true]
  exact .pure _ d

theorem write_tells {name : String} {d₂ : Disk} (hdry : c.settings.flag .dryRun = false)
    (hparent : Leaves (ensureParent (.ofString c.targetFile)) d₁ (.ok ()) d₂)
    (hwrite : Leaves (writeText c.targetFile code) d₂ (.ok ()) d') :
    Tells ((Stage.write name).execute c (some (.text code))) d₁
      (.ok (.success (some (.text c.targetFile))
        [("target_file", .text c.targetFile), ("generated_code", .text code)])) [] d' := by
  unfold Stage.write
  dsimp only [Datum.text]
  rw [hdry, if_neg Bool.false_ne_true]
  refine ((Tells.onState hparent).bind_quiet ?_).tryCatch
  exact (Tells.onState hwrite).bind_quiet (.pure _ d')

theorem write_tells_dry {name : String} (hdry : c.settings.flag .dryRun = true) :
    Tells ((Stage.write name).execute c (some (.text code))) d
      (.ok (.success (some (.text c.targetFile))
        [("dry_run", .bool true), ("target_file", .text c.targetFile),
          ("generated_code", .text code)])) [] d := by
  unfold Stage.write
  dsimp only [Datum.text]
  rw [hdry, if_pos rfl]
  exact .pure _ d

end Writing

/-! ## Both ways -/

section Both

variable {s : Settings} {file runId text : String} {d : Disk} {page : Option Snapshot} {c : Context}

/-- A job of one step comes to what the step comes to. -/
theorem output_of_write {data : Option Datum} {facts : Entries} {input : Option Datum} {d₁ d' : Disk}
    (hp : Tells (Phase.secureSource "output" c input) d (.ok (.ok input)) [] d₁)
    (h : Tells ((Stage.write "write_output").execute c input) d₁ (.ok (.success data facts)) [] d') :
    Tells (Phase.output.execute c input) d (.ok (.settled data [] facts)) [] d' := by
  have htask : Tells (Task.execute ⟨"output", [Stage.write "write_output"]⟩ c input) d₁
      (.ok (.settled data [] facts)) [] d' := by
    change Tells (Task.executeFrom _ c [Stage.write "write_output"] [] input) _ _ ([] ++ []) _
    refine Task.executeFrom_tells (Step.run_tells h) rfl ?_
    have hparts : Outcome.ofParts ((Outcome.success data facts).nextInput input)
        [.success data facts] = .settled data [] facts := Outcome.ofParts_singleton ..
    rw [← hparts]
    exact .pure _ d'
  have hjob := Job.execute_tells (j := Phase.output) rfl hp htask (by simp)
  simpa using hjob

/-- The output job hands on the code among the facts of its outcome. -/
theorem output_tells (code : String) (hc : Fits s file page c) (hwritable : Writable s file d) :
    ∃ data facts d', Tells (Phase.output.execute c (some (.text code))) d
      (.ok (.settled data [] facts)) [] d' ∧ facts.get? "generated_code" = some (.text code) := by
  by_cases hdry : s.flag .dryRun = true
  · rw [← hc.settings] at hdry
    exact ⟨_, _, d, output_of_write (secureSource_tells_dry hdry) (write_tells_dry hdry), rfl⟩
  · obtain ⟨text, d', hput⟩ := hwritable.resolve_left hdry
    rw [Bool.not_eq_true] at hdry
    obtain ⟨⟨⟩, d₁, hsecure, hput⟩ := hput.bind_ok
    obtain ⟨⟨⟩, d₂, hparent, hwrite⟩ := hput.bind_ok
    obtain ⟨d₃, hwrite⟩ := writeText_any hwrite code
    rw [← hc.target] at hparent hwrite
    have hsecured : Tells (Phase.secureSource "output" c (some (.text code))) d
        (.ok (.ok (some (.text code)))) [] d₁ := secureSource_tells hc hdry hsecure
    rw [← hc.settings] at hdry
    exact ⟨_, _, d₃, output_of_write hsecured (write_tells hdry hparent hwrite), rfl⟩

/-- The work ends with an outcome that is no error. -/
def ComesTo (work : Work Disk (Outcome Datum)) (d : Disk) (o : Outcome Datum) : Prop :=
  (work.run d).1 = .ok o ∧ o.isError = false

theorem comesTo_of_tells {work : Work Disk (Outcome Datum)} {o : Outcome Datum}
    {findings : List Event} {d' : Disk} (h : Tells work d (.ok o) findings d')
    (hok : o.isError = false) : ComesTo work d o := by
  obtain ⟨events, hrun, -⟩ := h.run_eq
  exact ⟨by rw [hrun], hok⟩

theorem ComesTo.unique {work : Work Disk (Outcome Datum)} {o o' : Outcome Datum}
    (h : ComesTo work d o) (h' : ComesTo work d o') : o = o' :=
  Except.ok.inj (h.1.symm.trans h'.1)

/-- The work fails, or its outcome is an error. -/
theorem not_comesTo_of_refused {work : Work Disk (Outcome Datum)}
    {x : Except Failure (Outcome Datum)} {findings : List Event} {d' : Disk}
    (h : Tells work d x findings d') (hx : Refused x) : ∀ o, ¬ ComesTo work d o := by
  intro o hcomes
  obtain ⟨events, hrun, -⟩ := h.run_eq
  obtain ⟨ho, hok⟩ := hcomes
  rw [hrun] at ho
  rw [hx o ho] at hok
  cases hok

theorem filePipeline_tells {conversion : Conversion} (hc : Fits s file page c)
    (hwritable : Writable s file d)
    (h : Conversion.ofSource (optionsOf c.settings d.cwd c.snapshot?) text (some c.sourceFile) =
      .ok conversion) :
    ∃ o findings d', Tells (filePipeline.execute c (some (.text text))) d (.ok o) findings d' ∧
      o.isError = false ∧ o.metadata.get? "generated_code" = some (.text conversion.code) := by
  obtain ⟨data, facts, d', houtput, hfacts⟩ := output_tells conversion.code hc hwritable
  let collected : Outcome Datum := .settled (some (.text conversion.code)) conversion.warnings []
  let written : Outcome Datum := .settled data [] facts
  have hcollected : collected.isError = false := by simp [collected]
  have hhand : collected.handOn c (some (.text text)) = (c, some (.text conversion.code)) :=
    Outcome.handOn_of_text hcollected (by simp [collected]) c _
  have hends := Outcome.endsAs_ofParts (written.handOn c (some (.text conversion.code))).2
    [collected] written
  refine ⟨_, c.tellings conversion.findings ++ ([] ++ []), d', Tells.publish_bind rfl ?_,
    hends.isError, ?_⟩
  · change Tells (filePipeline.executeFrom c [Phase.collector, Phase.output] [] c _) _ _ _ _
    refine Pipeline.executeFrom_tells (o := collected) (Phase.collector_tells c d h) hcollected ?_
    rw [hhand]
    refine Pipeline.executeFrom_tells houtput (by simp) ?_
    exact Pipeline.executeFrom_nil_tells rfl
  · rw [hends.metadata]
    simpa [written] using hfacts

/-! ### The captured page -/

theorem loadSnapshot_leaves (s : Settings) (d : Disk) :
    (∃ page, Leaves (loadSnapshot s) d (.ok page) d) ∨
      ∃ e, Leaves (loadSnapshot s) d (.error e) d := by
  cases h : loadSnapshot s d with
  | ok page d' =>
    have hd := reads_loadSnapshot s d (.ok page) d' h
    subst hd
    exact .inl ⟨page, h⟩
  | error e d' =>
    have hd := reads_loadSnapshot s d (.error e) d' h
    subst hd
    exact .inr ⟨e, h⟩

/-- What begins a run has failed, and the failure is reported or goes through. -/
theorem not_comesTo_of_begin {α : Type} {begin : Work Disk (Except Failure α)} {e : Failure}
    {next : Except Failure α → Work Disk (Outcome Datum)} (reports : FailureKind → Bool)
    (h : Tells begin d (.error e) [] d) (hnext : next (.error e) = return .failure e) :
    ∀ o, ¬ ComesTo (do
      let begun ← tryCatch begin fun e => if reports e.kind then return .error e else throw e
      next begun) d o := by
  by_cases hkind : reports e.kind = true
  · have hbegun : Tells (tryCatch begin fun e =>
        if reports e.kind then return .error e else throw e) d (.ok (.error e)) [] d := by
      refine h.tryCatch_error ?_
      rw [if_pos hkind]
      exact .pure _ d
    have hended : Tells (next (.error e)) d (.ok (.failure e)) [] d := by
      rw [hnext]
      exact .pure _ d
    exact not_comesTo_of_refused (hbegun.bind_quiet hended) (refused_of_isError rfl)
  · have hbegun : Tells (tryCatch begin fun e =>
        if reports e.kind then return .error e else throw e) d (.error e) [] d := by
      refine h.tryCatch_error ?_
      rw [if_neg hkind]
      exact .throw _ d
    exact not_comesTo_of_refused hbegun.bind_error (refused_of_error e)

/-- A page that cannot be read ends both. -/
theorem convertSource_of_no_page {e : Failure} (h : Leaves (loadSnapshot s) d (.error e) d) :
    ∀ o, ¬ ComesTo (convertSource text file s runId) d o :=
  not_comesTo_of_begin FailureKind.isSystem (Tells.onState h).bind_error rfl

theorem convertSource_of_page {x : Except Failure (Outcome Datum)} {findings : List Event} {d' : Disk}
    (hl : Leaves (loadSnapshot s) d (.ok page) d)
    (h : Tells (sourcePipeline.execute (withSnapshot (.create file (some file) s runId) page)
      (some (.text text))) d x findings d') :
    Tells (convertSource text file s runId) d x findings d' := by
  refine Tells.bind_quiet (b := .ok page) (t := d) ?_ h
  exact ((Tells.onState hl).bind_quiet (.pure (Except.ok page) d)).tryCatch

theorem migrateFile_of_no_page {e : Failure} (hreadable : Readable s file d text)
    (h : Leaves (loadSnapshot s) d (.error e) d) :
    ∀ o, ¬ ComesTo (migrateFile file s runId) d o := by
  obtain ⟨source, target, hs, ht⟩ := hreadable.named
  have hbegin : Leaves (do
      let c ← contextOf file s runId
      return .ok (c, ← readSource c.sourceFile s) :
        Filing (Except Failure (Context × String))) d (.error e) d :=
    (contextOf_error hs ht h).of_bind_error
  exact not_comesTo_of_begin isReported (Tells.onState hbegin) rfl

/-- A file that can be read goes through the pipeline. -/
theorem migrateFile_of_page (runId : String) (hreadable : Readable s file d text)
    (hl : Leaves (loadSnapshot s) d (.ok page) d) :
    ∃ c, Fits s file page c ∧ ∀ {x findings d'},
      Tells (filePipeline.execute c (some (.text (Blank.asRead text)))) d x findings d' →
        Tells (migrateFile file s runId) d x findings d' := by
  obtain ⟨source, target, hs, ht⟩ := hreadable.named
  obtain ⟨c, hcontext, hc⟩ := contextOf_ok runId hs ht hl
  have hread := readSource_of_readable hreadable
  rw [← hc.source] at hread
  have hbegin : Leaves (do
      let c ← contextOf file s runId
      return .ok (c, ← readSource c.sourceFile s) :
        Filing (Except Failure (Context × String))) d (.ok (.ok (c, Blank.asRead text))) d := by
    unfold Leaves
    rw [hcontext.of_bind_ok, hread.of_bind_ok]
    rfl
  refine ⟨c, hc, fun h => ?_⟩
  exact Tells.bind_quiet (b := .ok (c, Blank.asRead text)) (t := d) (Tells.onState hbegin).tryCatch h

theorem fits_memory (s : Settings) (file runId : String) (page : Option Snapshot) :
    let c := withSnapshot (.create file (some file) s runId) page
    c.sourceFile = file ∧ c.settings = s ∧ c.snapshot? = page := by
  cases page with
  | none => exact ⟨rfl, rfl, rfl⟩
  | some page => exact ⟨rfl, rfl, rfl⟩

/-! ### The agreement -/

/-- The migration of the file and the conversion of a text under the file's name succeed together,
and then the code is the same. -/
structure SameCode (s : Settings) (file runId : String) (d : Disk) (text : String) : Prop where
  succeed : (∃ o, ComesTo (migrateFile file s runId) d o) ↔
    ∃ o, ComesTo (convertSource text (sourceName file) s runId) d o
  code : ∀ o o', ComesTo (migrateFile file s runId) d o →
    ComesTo (convertSource text (sourceName file) s runId) d o' →
      ∃ code, o'.data = some (.text code) ∧ o.metadata.get? "generated_code" = some (.text code)

theorem sameCode_of_neither (h : ∀ o, ¬ ComesTo (migrateFile file s runId) d o)
    (h' : ∀ o, ¬ ComesTo (convertSource text (sourceName file) s runId) d o) :
    SameCode s file runId d text where
  succeed := ⟨fun ⟨o, ho⟩ => absurd ho (h o), fun ⟨o, ho⟩ => absurd ho (h' o)⟩
  code := fun o _ ho _ => absurd ho (h o)

theorem sameCode_asRead (hreadable : Readable s file d text) (hwritable : Writable s file d)
    (runId : String) : SameCode s file runId d (Blank.asRead text) := by
  rcases loadSnapshot_leaves s d with ⟨page, hl⟩ | ⟨e, hl⟩
  · obtain ⟨c, hc, hmigrate⟩ := migrateFile_of_page runId hreadable hl
    obtain ⟨hfile, hsettings, hpage⟩ := fits_memory s (sourceName file) runId page
    have hsame : optionsOf c.settings d.cwd c.snapshot? = optionsOf s d.cwd page := by
      rw [hc.settings, hc.page]
    cases hengine : Conversion.ofSource (optionsOf s d.cwd page) (Blank.asRead text)
        (some (sourceName file)) with
    | ok conversion =>
      obtain ⟨o, findings, d', htells, hok, hcode⟩ := filePipeline_tells hc hwritable
        (by rw [hsame, hc.source]; exact hengine)
      have hmemory := convertSource_of_page hl (sourcePipeline_tells _ d
        (by rw [hfile, hsettings, hpage]; exact hengine))
      have hfirst := comesTo_of_tells (hmigrate htells) hok
      have hsecond := comesTo_of_tells hmemory (by simp)
      refine ⟨⟨fun _ => ⟨_, hsecond⟩, fun _ => ⟨_, hfirst⟩⟩, ?_⟩
      intro o₁ o₂ h₁ h₂
      rw [h₁.unique hfirst, h₂.unique hsecond]
      exact ⟨conversion.code, by simp, hcode⟩
    | error e =>
      obtain ⟨findings, o, htells, hfailed, he⟩ := collecting_errs (p := filePipeline) rfl c d
        (by rw [hsame, hc.source]; exact hengine)
      obtain ⟨findings', o', htells', hfailed', he'⟩ := collecting_errs (p := sourcePipeline) rfl
        (withSnapshot (.create (sourceName file) (some (sourceName file)) s runId) page) d
        (by rw [hfile, hsettings, hpage]; exact hengine)
      exact sameCode_of_neither
        (not_comesTo_of_refused (hmigrate htells) (refused_of_isError hfailed))
        (not_comesTo_of_refused (convertSource_of_page hl htells') (refused_of_isError hfailed'))
  · exact sameCode_of_neither (migrateFile_of_no_page hreadable hl) (convertSource_of_no_page hl)

/-- The code of a file is that of its text with every line break made a line feed, and so that of
its text where a line feed is the only line break. -/
theorem migrateFile_converts (hreadable : Readable s file d text) (hwritable : Writable s file d)
    (runId : String) :
    SameCode s file runId d (Blank.asRead text) ∧
      ('\r' ∉ text.toList → SameCode s file runId d text) := by
  have hread := sameCode_asRead hreadable hwritable runId
  refine ⟨hread, fun hbreaks => ?_⟩
  rwa [Blank.asRead_of_none hbreaks] at hread

end Both

/-- A directory with one file. -/
def holding (text : String) : Disk :=
  ⟨[(["w"], .directory), (["w", "a.js"], .file text.toUTF8)], ["w"]⟩

theorem readable_holding {text : String}
    (hplace : ((holding text).find (sourceName "a.js")).toOption = some ["w", "a.js"])
    (hsize : (Settings.standard.refusesSize text.toUTF8.size).toOption = some false) :
    Readable Settings.standard "a.js" (holding text) text where
  named := by
    obtain ⟨source, hsource, -⟩ : ∃ p, PathName.ofSource "a.js" = .ok p ∧ p.parts = ["a.js"] :=
      exists_of_toOption_map (by decide +kernel)
    obtain ⟨target, htarget, -⟩ : ∃ p, targetOf (.ofString "a.js") Settings.standard = .ok p ∧
        p.parts = ["a.js"] := exists_of_toOption_map (by decide +kernel)
    exact ⟨source, target, hsource, by rw [ofSource_ok hsource]; exact htarget⟩
  holds := by
    obtain ⟨place, hfind, rfl⟩ := exists_of_toOption_map (f := id) (by simpa using hplace)
    obtain ⟨refuses, hlimit, rfl⟩ := exists_of_toOption_map (f := id) (by simpa using hsize)
    exact ⟨_, text.toUTF8, hfind, rfl, fromUTF8?_of_text text, hlimit⟩

theorem writable_holding {text : String}
    (h : (((putOut Settings.standard "a.js" text).run (holding text)) matches .ok ..) = true) :
    Writable Settings.standard "a.js" (holding text) := by
  refine .inr ⟨text, ?_⟩
  cases hput : (putOut Settings.standard "a.js" text) (holding text) with
  | ok u d => exact ⟨d, hput⟩
  | error e d =>
    change (((putOut Settings.standard "a.js" text) (holding text)) matches .ok ..) = true at h
    rw [hput] at h
    cases h

theorem exists_comesTo {work : Work Disk (Outcome Datum)} {d : Disk} {f : Outcome Datum → Option String}
    {code : Option String}
    (h : ((work.run d).1.toOption.map fun o => (o.isError, f o)) = some (false, code)) :
    ∃ o, ComesTo work d o ∧ f o = code := by
  obtain ⟨o, hrun, hboth⟩ := exists_of_toOption_map h
  exact ⟨o, ⟨hrun, (Prod.mk.inj hboth).1⟩, (Prod.mk.inj hboth).2⟩

theorem migrateFile_converts_lines :
    Readable Settings.standard "a.js" (holding "x.first();\ny();\n") "x.first();\ny();\n" ∧
      Writable Settings.standard "a.js" (holding "x.first();\ny();\n") ∧
      ∃ o, ComesTo (migrateFile "a.js" Settings.standard "run") (holding "x.first();\ny();\n") o ∧
        o.metadata.get? "generated_code" = some (.text "x;\ny();\n") := by
  have hreadable : Readable Settings.standard "a.js" (holding "x.first();\ny();\n")
      "x.first();\ny();\n" := readable_holding (by decide +kernel) (by decide +kernel)
  have hwritable : Writable Settings.standard "a.js" (holding "x.first();\ny();\n") :=
    writable_holding (by decide +kernel)
  have hsame := (migrateFile_converts hreadable hwritable "run").2 (by decide)
  obtain ⟨o', hmemory, hdata⟩ : ∃ o', ComesTo (convertSource "x.first();\ny();\n" (sourceName "a.js")
      Settings.standard "run") (holding "x.first();\ny();\n") o' ∧
        o'.data.map Datum.display = some "x;\ny();\n" := exists_comesTo (by decide +kernel)
  obtain ⟨o, hfile⟩ := hsame.succeed.mpr ⟨o', hmemory⟩
  obtain ⟨code, hcode, hgenerated⟩ := hsame.code o o' hfile hmemory
  rw [hcode] at hdata
  cases hdata
  exact ⟨hreadable, hwritable, o, hfile, hgenerated⟩

/-- The lines of this file end in a carriage return and a line feed. In memory the text keeps them;
of the file no carriage return is left. -/
theorem returns_dropped :
    Readable Settings.standard "a.js" (holding "x.first();\r\ny();\r\n") "x.first();\r\ny();\r\n" ∧
      Writable Settings.standard "a.js" (holding "x.first();\r\ny();\r\n") ∧
      ¬ SameCode Settings.standard "a.js" "run" (holding "x.first();\r\ny();\r\n")
        "x.first();\r\ny();\r\n" := by
  refine ⟨readable_holding (by decide +kernel) (by decide +kernel),
    writable_holding (by decide +kernel), fun hsame => ?_⟩
  obtain ⟨o', hmemory, hdata⟩ : ∃ o', ComesTo (convertSource "x.first();\r\ny();\r\n"
      (sourceName "a.js") Settings.standard "run") (holding "x.first();\r\ny();\r\n") o' ∧
        o'.data.map Datum.display = some "x;\r\ny();\r\n" := exists_comesTo (by decide +kernel)
  obtain ⟨o, hfile, hshown⟩ : ∃ o, ComesTo (migrateFile "a.js" Settings.standard "run")
      (holding "x.first();\r\ny();\r\n") o ∧
        (o.metadata.get? "generated_code").map Value.display = some "x;\ny();\n" :=
    exists_comesTo (by decide +kernel)
  obtain ⟨code, hcode, hgenerated⟩ := hsame.code o o' hfile hmemory
  rw [hcode] at hdata
  cases hdata
  rw [hgenerated] at hshown
  exact absurd hshown (by decide)

end Migration

end TestMigration
