import TestMigration.Migration.Batch
import TestMigration.Proofs.Repetition
import TestMigration.Proofs.Work

/-! What the migration of one file does to a disk. Either it is refused, and then the disk has
gained directories and at most a copy of the source; or the target holds the conversion of the
source, and the copy was there before the target was written. -/

namespace TestMigration

open Disk (Gains)

namespace Migration

/-! ## The paths of a file -/

/-- The path under which a listed file is read. -/
def sourceName (file : String) : String := toString (PathName.ofString file)

/-- The path of its target. -/
def targetName (s : Settings) (file : String) : String :=
  toString (PathName.ofString (toString ((PathName.ofString file).target (s.text? .targetRoot)
    (s.text .targetSuffix) s.extension?)))

/-- The path of its copy. -/
def copyName (s : Settings) (file : String) : String :=
  toString ((PathName.ofString (sourceName file)).backup (s.text? .backupRoot))

def sourcePlace (cwd : Route) (file : String) : Route := placeOf cwd (sourceName file)

def targetPlace (cwd : Route) (s : Settings) (file : String) : Route := placeOf cwd (targetName s file)

def copyPlace (cwd : Route) (s : Settings) (file : String) : Route := placeOf cwd (copyName s file)

/-- The options under which a file is converted. -/
def optionsOf (s : Settings) (cwd : Route) (page : Option Snapshot) : ConversionOptions :=
  ⟨⟨1, cwd⟩, s.text .testIdAttribute, s.flag .emitSetup, page⟩

/-- The one file that may be new beside the target: a copy of the source. -/
def Copied (s : Settings) (file : String) (d : Disk) (p : Route) (bytes : ByteArray) : Prop :=
  p = copyPlace d.cwd s file ∧ d.get? (sourcePlace d.cwd file) = some (.file bytes)

/-- What the migration of a file came to, and what it left. -/
inductive Turn (s : Settings) (file : String) (d : Disk) :
    Except Failure (Outcome Datum) → Disk → Prop where
  | refused {x : Except Failure (Outcome Datum)} {d' : Disk} (answer : Refused x)
      (gains : Gains (Copied s file d) d d') : Turn s file d x d'
  | written {o : Outcome Datum} {text : String} {page : Option Snapshot} {conversion : Conversion}
      {secured : Disk}
      (reads : Leaves (Filing.readText (sourceName file)) d (.ok text) d)
      (loads : Leaves (loadSnapshot s) d (.ok page) d)
      (converts : Conversion.ofSource (optionsOf s d.cwd page) text (some (sourceName file)) =
        .ok conversion)
      (gains : Gains (Copied s file d) d secured)
      (secures : s.flag .backups = true → targetPlace d.cwd s file = sourcePlace d.cwd file →
        secured.get? (copyPlace d.cwd s file) ≠ none)
      (leads : secured.find (targetName s file) = .ok (targetPlace d.cwd s file))
      (noDirectory : secured.get? (targetPlace d.cwd s file) ≠ some .directory)
      (answer : o.isError = false)
      (data : o.data = some (.text (targetName s file)))
      (code : o.metadata.get? "generated_code" = some (.text conversion.code)) :
      Turn s file d (.ok o) (secured.put (targetPlace d.cwd s file) (.file conversion.code.toUTF8))

theorem Turn.cwd {s : Settings} {file : String} {d d' : Disk} {x : Except Failure (Outcome Datum)}
    (h : Turn s file d x d') : d'.cwd = d.cwd := by
  cases h with
  | refused _ gains => exact gains.cwd
  | written _ _ _ gains => exact gains.cwd

/-! ## The context of a file -/

theorem check_ok {role given shown : String} {p q : PathName}
    (h : PathName.check role given shown p = .ok q) : q = p := by
  unfold PathName.check at h
  split at h
  · cases h
  split at h
  · cases h
  cases h
  rfl

theorem ofSource_ok {given : String} {p : PathName} (h : PathName.ofSource given = .ok p) :
    p = PathName.ofString given := check_ok h

theorem ofTarget_ok {given : String} {p : PathName} (h : PathName.ofTarget given = .ok p) :
    p = PathName.ofString given := check_ok h

theorem targetOf_ok {file : String} {s : Settings} {target : PathName}
    (h : targetOf (PathName.ofString file) s = .ok target) : toString target = targetName s file := by
  unfold targetOf at h
  rw [ofTarget_ok h]
  rfl

theorem toString_ne_empty (p : PathName) : toString p ≠ "" := by
  intro h
  change (if _ then "." else _) = "" at h
  split at h
  · exact absurd h (by decide)
  · rename_i hne
    exact hne (beq_iff_eq.mpr h)

theorem reads_loadSnapshot (s : Settings) : Reads (loadSnapshot s) := by
  unfold loadSnapshot
  split
  · exact reads_pure _
  · exact (Filing.reads_readText _).bind fun _ => reads_pure _

/-- What the steps read of a context is what the file and the settings say. -/
structure Fits (s : Settings) (file : String) (page : Option Snapshot) (c : Context) : Prop where
  source : c.sourceFile = sourceName file
  target : c.targetFile = targetName s file
  settings : c.settings = s
  page : c.snapshot? = page

theorem fits_create (s : Settings) (file runId : String) (page : Option Snapshot) (target : PathName)
    (ht : toString target = targetName s file) :
    Fits s file page
      (withSnapshot (.create (sourceName file) (some (toString target)) s runId) page) := by
  have hcreate : (Context.create (sourceName file) (some (toString target)) s runId).targetFile =
      targetName s file := by
    unfold Context.create
    dsimp only
    split
    · rename_i h
      cases h
    · rename_i h
      exact absurd (Option.some.inj h) (toString_ne_empty target)
    · rename_i h
      rw [← Option.some.inj h, ht]
  cases page with
  | none => exact ⟨rfl, hcreate, rfl, rfl⟩
  | some page => exact ⟨rfl, hcreate, rfl, rfl⟩

theorem reads_contextOf (file : String) (s : Settings) (runId : String) :
    Reads (contextOf file s runId) := by
  refine (reads_ofExcept _).bind fun source => (reads_ofExcept _).bind fun target => ?_
  exact (reads_loadSnapshot s).bind fun page => reads_pure _

theorem contextOf_leaves_ok {file runId : String} {s : Settings} {c : Context} {d d' : Disk}
    (h : Leaves (contextOf file s runId) d (.ok c) d') :
    d' = d ∧ ∃ page, Leaves (loadSnapshot s) d (.ok page) d ∧ Fits s file page c := by
  rcases h.bind with ⟨source, t, hsource, hchecked⟩ | ⟨e, -, he⟩
  · obtain ⟨hs, rfl⟩ := hsource.ofExcept
    rcases hchecked.bind with ⟨target, u, htarget, hloads⟩ | ⟨e, -, he⟩
    · obtain ⟨ht, rfl⟩ := htarget.ofExcept
      rcases hloads.bind with ⟨page, v, hpage, hcontext⟩ | ⟨e, -, he⟩
      · have hv := reads_loadSnapshot s _ _ _ hpage
        subst hv
        obtain ⟨hc, rfl⟩ := hcontext.pure
        have hs := ofSource_ok hs.symm
        subst hs
        cases hc
        exact ⟨rfl, page, hpage, fits_create s file runId page target (targetOf_ok ht.symm)⟩
      · cases he
    · cases he
  · cases he

theorem readSource_leaves_ok {path text : String} {s : Settings} {d d' : Disk}
    (h : Leaves (readSource path s) d (.ok text) d') :
    d' = d ∧ Leaves (Filing.readText path) d (.ok text) d := by
  rcases h.bind with ⟨size, t, hsize, hrest⟩ | ⟨e, -, he⟩
  · have ht := Filing.reads_size path _ _ _ hsize
    subst ht
    rcases hrest.bind with ⟨refuses, u, hlimit, hrest⟩ | ⟨e, -, he⟩
    · obtain ⟨-, rfl⟩ := hlimit.ofExcept
      cases refuses with
      | true =>
        rcases hrest.bind with ⟨y, v, hthrow, -⟩ | ⟨e, -, he⟩
        · cases hthrow.throw.1
        · cases he
      | false =>
        have hread : Leaves (Filing.readText path) u (.ok text) d' := hrest
        have hd := Filing.reads_readText path _ _ _ hread
        subst hd
        exact ⟨rfl, hread⟩
    · cases he
  · cases he

theorem reads_readSource (path : String) (s : Settings) : Reads (readSource path s) := by
  refine (Filing.reads_size path).bind fun size => (reads_ofExcept _).bind fun refuses => ?_
  cases refuses with
  | true => exact (reads_throw _).bind fun _ => Filing.reads_readText path
  | false => exact Filing.reads_readText path

end Migration

/-! ## The steps -/

section Steps

variable {name : String} {c : Context} {r r' : Running Disk} {y : Except Failure (Outcome Datum)}

theorem Stage.parse_leaves {source : String}
    (h : Leaves ((Stage.parse name).execute c (some (.text source))) r y r') :
    r'.state = r.state ∧ ∀ o, y = .ok o → o.isError = false →
      ∃ d, Document.ofString (some c.sourceFile) source = .ok d ∧ o.data = some (.document d) := by
  unfold Stage.parse at h
  dsimp only [Datum.text] at h
  cases hd : Document.ofString (some c.sourceFile) source with
  | ok d =>
    rw [hd] at h
    obtain ⟨rfl, rfl⟩ := h.pure
    refine ⟨rfl, ?_⟩
    intro o ho _
    cases ho
    exact ⟨d, rfl, rfl⟩
  | error e =>
    rw [hd] at h
    dsimp only at h
    split at h
    · obtain ⟨rfl, rfl⟩ := h.pure
      refine ⟨rfl, ?_⟩
      intro o ho hok
      cases ho
      cases hok
    · obtain ⟨rfl, rfl⟩ := h.throw
      refine ⟨rfl, ?_⟩
      intro o ho _
      cases ho

theorem Stage.publishFindings_leaves {findings : List Diagnostic} {x : Except Failure Unit}
    (h : Leaves (Stage.publishFindings c findings) r x r') : x = .ok () ∧ r'.state = r.state := by
  unfold Stage.publishFindings at h
  induction findings generalizing r with
  | nil =>
    obtain ⟨rfl, rfl⟩ := h.pure
    exact ⟨rfl, rfl⟩
  | cons finding findings ih =>
    obtain ⟨t, ht, hrest⟩ := h.publish_bind
    obtain ⟨rfl, hr⟩ := ih hrest
    exact ⟨rfl, hr.trans ht⟩

theorem Stage.convert_leaves {d : Document}
    (h : Leaves ((Stage.convert name).execute c (some (.document d))) r y r') :
    r'.state = r.state ∧ ∀ o, y = .ok o → o.isError = false → ∃ conversion s,
      Conversion.run (Migration.optionsOf c.settings r.state.cwd c.snapshot?)
        ⟨d, some c.sourceFile, []⟩ = .ok conversion s ∧
      o.data = some (.document s.document) := by
  have hopen := h.get_bind
  dsimp only at hopen
  unfold Migration.optionsOf
  split at hopen
  · rcases hopen.bind with ⟨⟨⟩, t, hfindings, hend⟩ | ⟨e, hfindings, -⟩
    · have ht := (Stage.publishFindings_leaves hfindings).2
      split at hend
      · obtain ⟨rfl, rfl⟩ := hend.pure
        refine ⟨ht, ?_⟩
        intro o ho hok
        cases ho
        cases hok
      · obtain ⟨rfl, rfl⟩ := hend.throw
        refine ⟨ht, ?_⟩
        intro o ho _
        cases ho
    · cases (Stage.publishFindings_leaves hfindings).1
  · rename_i conversion s hrun
    rcases hopen.bind with ⟨⟨⟩, t, hfindings, hend⟩ | ⟨e, hfindings, -⟩
    · have ht := (Stage.publishFindings_leaves hfindings).2
      obtain ⟨u, hu, hend⟩ := hend.publish_bind
      obtain ⟨rfl, rfl⟩ := hend.pure
      refine ⟨hu.trans ht, ?_⟩
      intro o ho _
      cases ho
      exact ⟨conversion, s, hrun, by simp⟩
    · cases (Stage.publishFindings_leaves hfindings).1

theorem Stage.generate_leaves {d : Document}
    (h : Leaves ((Stage.generate name).execute c (some (.document d))) r y r') :
    r'.state = r.state ∧ ∀ o, y = .ok o → o.isError = false →
      ∃ code, d.code = .ok code ∧ o.data = some (.text code) := by
  rcases h.bind with ⟨code, t, htext, hend⟩ | ⟨e, htext, rfl⟩
  · obtain ⟨hcode, rfl⟩ := htext.ofExcept
    obtain ⟨rfl, rfl⟩ := hend.pure
    refine ⟨rfl, ?_⟩
    intro o ho _
    cases ho
    exact ⟨code, hcode.symm, rfl⟩
  · obtain ⟨-, rfl⟩ := htext.ofExcept
    refine ⟨rfl, ?_⟩
    intro o ho _
    cases ho

/-- The outcome names the target and holds the code; the target's place, on a disk that has gained
directories only, has been given the code. -/
structure Stage.Writes (c : Context) (code : String) (before : Disk) (o : Outcome Datum) (e : Disk)
    (p : Route) (after : Disk) : Prop where
  answer : o.isError = false
  data : o.data = some (.text c.targetFile)
  holds : o.metadata.get? "generated_code" = some (.text code)
  gains : Gains (fun _ _ => False) before e
  leads : e.find c.targetFile = .ok p
  noDirectory : e.get? p ≠ some .directory
  puts : after = e.put p (.file code.toUTF8)

/-- The directories above the target come first; then the target is written, or nothing is. -/
theorem Stage.write_leaves {code : String} (hdry : c.settings.flag .dryRun = false)
    (h : Leaves ((Stage.write name).execute c (some (.text code))) r y r') :
    (Refused y ∧ Gains (fun _ _ => False) r.state r'.state) ∨
      ∃ o e p, y = .ok o ∧ Stage.Writes c code r.state o e p r'.state := by
  unfold Stage.write at h
  dsimp only [Datum.text] at h
  rw [hdry, if_neg (by simp)] at h
  rcases h.tryCatch with ⟨o, hwork, rfl⟩ | ⟨e, t, hwork, hfail⟩
  · rcases hwork.bind with ⟨⟨⟩, t, hparent, hwrite⟩ | ⟨e, -, he⟩
    · have hgains := Filing.builds_ensureParent _ _ _ _ hparent.onState
      rcases hwrite.bind with ⟨⟨⟩, u, hput, hend⟩ | ⟨e, -, he⟩
      · obtain ⟨ho, rfl⟩ := hend.pure
        cases ho
        rcases Filing.writeBytes_leaves hput.onState with ⟨-, e, he⟩ | ⟨-, p, hp, hopen, hr⟩
        · cases he
        · exact .inr ⟨_, t.state, p, rfl, rfl, rfl, rfl, hgains, hp, hopen, hr⟩
      · cases he
    · cases he
  · left
    have hkeeps : Refused y ∧ r' = t := by
      split at hfail
      · obtain ⟨rfl, rfl⟩ := hfail.pure
        exact ⟨refused_of_isError rfl, rfl⟩
      · obtain ⟨rfl, rfl⟩ := hfail.throw
        exact ⟨refused_of_error _, rfl⟩
    obtain ⟨hrefused, rfl⟩ := hkeeps
    refine ⟨hrefused, ?_⟩
    rcases hwork.bind with ⟨⟨⟩, u, hparent, hwrite⟩ | ⟨e, hparent, -⟩
    · have hgains := Filing.builds_ensureParent _ _ _ _ hparent.onState
      rcases hwrite.bind with ⟨⟨⟩, v, hput, hend⟩ | ⟨e, hput, -⟩
      · cases hend.pure.1
      · rcases Filing.writeBytes_leaves hput.onState with ⟨hr, -⟩ | ⟨he, -⟩
        · rw [hr]
          exact hgains
        · cases he
    · exact Filing.builds_ensureParent _ _ _ _ hparent.onState

end Steps

/-! ## The jobs -/

section Jobs

variable {c : Context} {r r' : Running Disk} {x : Except Failure (Outcome Datum)}

/-- Parsing, converting and writing out as text leave the disk alone and come to the conversion of
the source. -/
theorem Phase.convert_leaves {task parse convert generate source : String}
    (h : Leaves ((⟨task, [Stage.parse parse, Stage.convert convert, Stage.generate generate]⟩ :
      Task Disk).execute c (some (.text source))) r x r') :
    r'.state = r.state ∧ (Refused x ∨ ∃ o conversion, x = .ok o ∧ o.isError = false ∧
      Conversion.ofSource (Migration.optionsOf c.settings r.state.cwd c.snapshot?) source
        (some c.sourceFile) = .ok conversion ∧
      o.data = some (.text conversion.code)) := by
  obtain ⟨u, y, u', hu, hparse, hrest⟩ := Task.executeFrom_leaves h
  obtain ⟨hkept, hparsed⟩ := Stage.parse_leaves hparse
  rcases hrest with ⟨-, o, rfl, ho, hr⟩ | ⟨parsed, v, rfl, hok, hv, hrest⟩
  · exact ⟨by rw [hr, hkept, hu], .inl (refused_of_isError ho)⟩
  have hv : v.state = r.state := by rw [hv, hkept, hu]
  obtain ⟨d, hd, hdata⟩ := hparsed parsed rfl hok
  rw [Outcome.nextInput_of_data hok hdata] at hrest
  obtain ⟨w, y, w', hw, hconvert, hrest⟩ := Task.executeFrom_leaves hrest
  obtain ⟨hkept, hconverted⟩ := Stage.convert_leaves hconvert
  rcases hrest with ⟨-, o, rfl, ho, hr⟩ | ⟨converted, z, rfl, hok, hz, hrest⟩
  · exact ⟨by rw [hr, hkept, hw, hv], .inl (refused_of_isError ho)⟩
  have hz : z.state = r.state := by rw [hz, hkept, hw, hv]
  obtain ⟨conversion, s, hrun, hdata⟩ := hconverted converted rfl hok
  rw [Outcome.nextInput_of_data hok hdata] at hrest
  rw [hw, hv] at hrun
  obtain ⟨p, y, p', hp, hgenerate, hrest⟩ := Task.executeFrom_leaves hrest
  obtain ⟨hkept, hgenerated⟩ := Stage.generate_leaves hgenerate
  rcases hrest with ⟨-, o, rfl, ho, hr⟩ | ⟨generated, q, rfl, hok, hq, hrest⟩
  · exact ⟨by rw [hr, hkept, hp, hz], .inl (refused_of_isError ho)⟩
  obtain ⟨code, hcode, hdata⟩ := hgenerated generated rfl hok
  obtain ⟨rfl, rfl⟩ := Task.executeFrom_nil hrest
  obtain ⟨-, -, hcode', -⟩ := Conversion.run_ok.mp hrun
  rw [hcode'] at hcode
  cases hcode
  have hends := Outcome.endsAs_ofParts (generated.nextInput (some (.document s.document)))
    ([] ++ [parsed] ++ [converted]) generated
  refine ⟨by rw [hq, hkept, hp, hz], .inr ⟨_, conversion, rfl, hends.isError, ?_, ?_⟩⟩
  · exact Conversion.ofSource_ok.mpr ⟨d, s, hd, hrun⟩
  · rw [hends.data, hdata]

/-- The collector leaves the disk alone, and what it hands on is the conversion of the source. -/
theorem Phase.collector_leaves {source : String}
    (h : Leaves (Phase.collector.execute c (some (.text source))) r x r') :
    r'.state = r.state ∧ (Refused x ∨ ∃ o conversion, x = .ok o ∧ o.isError = false ∧
      Conversion.ofSource (Migration.optionsOf c.settings r.state.cwd c.snapshot?) source
        (some c.sourceFile) = .ok conversion ∧
      o.data = some (.text conversion.code)) := by
  obtain ⟨y, u, hprepare, hrest⟩ := Job.execute_leaves rfl h
  have hprepare : Leaves (pure (.ok (some (.text source))) : Work Disk _) r y u := hprepare
  obtain ⟨rfl, rfl⟩ := hprepare.pure
  rcases hrest with ⟨hr, ⟨e, rfl⟩ | ⟨o, ho, -⟩⟩ | ⟨input, v, z, v', hinput, hv, htask, hr, hanswer⟩
  · exact ⟨hr, .inl (refused_of_error e)⟩
  · cases ho
  cases hinput
  obtain ⟨hkept, hconverted⟩ := Phase.convert_leaves htask
  refine ⟨by rw [hr, hkept, hv], ?_⟩
  rcases hanswer with ⟨-, hrefused⟩ | ⟨o, o', rfl, ho, rfl, hends⟩
  · exact .inl hrefused
  rcases hconverted with hrefused | ⟨o, conversion, ho', -, hconversion, hdata⟩
  · rw [hrefused o rfl] at ho
    cases ho
  cases ho'
  rw [hv] at hconversion
  exact .inr ⟨o', conversion, rfl, hends.isError, hconversion, hends.data.trans hdata⟩

/-- A copy is kept where nothing stood, and when the work is done something stands there. -/
theorem Phase.keepCopy_leaves {source : String} {directory : Option String} {d d' : Disk}
    {x : Except Failure Unit} (hcwd : ".." ∉ d.cwd)
    (h : Leaves (Phase.keepCopy source directory) d x d') :
    Gains (fun p bytes =>
        p = placeOf d.cwd (toString ((PathName.ofString source).backup directory)) ∧
          d.get? (placeOf d.cwd source) = some (.file bytes)) d d' ∧
      (x = .ok () →
        d'.get? (placeOf d.cwd (toString ((PathName.ofString source).backup directory))) ≠ none) := by
  rcases h.bind with ⟨⟨⟩, e, hparent, hrest⟩ | ⟨e, hparent, rfl⟩
  · have hgains := Filing.builds_ensureDirectory _ _ _ _ hparent
    have hrest := hrest.get_bind
    split at hrest
    · rename_i hfree
      rw [Bool.not_eq_true'] at hfree
      obtain ⟨hcopy, hthere⟩ := Filing.copy_leaves (by rwa [hgains.cwd]) hfree hrest
      rw [hgains.cwd] at hcopy hthere
      refine ⟨(hgains.mono fun _ _ hno => hno.elim).trans (hcopy.mono ?_), hthere⟩
      intro p bytes hnew
      refine ⟨hnew.1, ?_⟩
      rcases hgains.new hnew.2 with hold | ⟨-, hno⟩
      · exact hold
      · exact hno.elim
    · rename_i hthere
      obtain ⟨-, rfl⟩ := hrest.pure
      refine ⟨hgains.mono fun _ _ hno => hno.elim, ?_⟩
      intro _ hnone
      rw [Bool.not_eq_true', Bool.not_eq_false] at hthere
      unfold Disk.exists? Disk.item? at hthere
      cases hp : d'.find (toString ((PathName.ofString source).backup directory)) with
      | error f =>
        rw [hp] at hthere
        cases hthere
      | ok p =>
        have hplace := Disk.find_place (by rwa [hgains.cwd]) hp
        rw [hp] at hthere
        rw [← hgains.cwd, ← hplace] at hnone
        simp [Except.toOption, hnone] at hthere
  · refine ⟨(Filing.builds_ensureDirectory _ _ _ _ hparent).mono fun _ _ hno => hno.elim, ?_⟩
    intro he
    cases he

/-- The source is secured when its own place is the target. -/
theorem Phase.secureSource_leaves {name : String} {input : Option Datum} {s : Settings} {file : String}
    {page : Option Snapshot} {y : Except Failure (Except (Outcome Datum) (Option Datum))}
    (hc : Migration.Fits s file page c) (hdry : s.flag .dryRun = false) (hcwd : ".." ∉ r.state.cwd)
    (h : Leaves (Phase.secureSource name c input) r y r') :
    Gains (Migration.Copied s file r.state) r.state r'.state ∧
      (∀ o, y = .ok (.error o) → o.isError = true) ∧
      ∀ input', y = .ok (.ok input') → input' = input ∧ (s.flag .backups = true →
        Migration.targetPlace r.state.cwd s file = Migration.sourcePlace r.state.cwd file →
        r'.state.get? (Migration.copyPlace r.state.cwd s file) ≠ none) := by
  have hopen := h.get_bind
  split at hopen
  · have hsecured : ∀ {t : Running Disk} {z : Except Failure Unit},
        Leaves (Work.onState (Phase.keepCopy c.sourceFile (c.settings.text? .backupRoot))) r z t →
        Gains (Migration.Copied s file r.state) r.state t.state ∧
          (z = .ok () → t.state.get? (Migration.copyPlace r.state.cwd s file) ≠ none) := by
      intro t z hkeep
      have hkeep := hkeep.onState
      rw [hc.source, hc.settings] at hkeep
      exact Phase.keepCopy_leaves hcwd hkeep
    rcases hopen.tryCatch with ⟨b, hwork, rfl⟩ | ⟨e, t, hwork, hfail⟩
    -- a copy was made, or stood there already
    · rcases hwork.bind with ⟨⟨⟩, t, hkeep, hend⟩ | ⟨e, -, he⟩
      · obtain ⟨hb, rfl⟩ := hend.pure
        cases hb
        obtain ⟨hgains, hthere⟩ := hsecured hkeep
        refine ⟨hgains, ?_, ?_⟩
        · intro o ho
          cases ho
        · intro input' hi
          cases hi
          exact ⟨rfl, fun _ _ => hthere rfl⟩
      · cases he
    -- the copy failed, but directories for it may have been made
    · have hgains : Gains (Migration.Copied s file r.state) r.state t.state := by
        rcases hwork.bind with ⟨⟨⟩, u, -, hend⟩ | ⟨e, hkeep, -⟩
        · cases hend.pure.1
        · exact (hsecured hkeep).1
      split at hfail
      · obtain ⟨rfl, rfl⟩ := hfail.pure
        refine ⟨hgains, ?_, ?_⟩
        · intro o ho
          cases ho
          rfl
        · intro input' hi
          cases hi
      · obtain ⟨rfl, rfl⟩ := hfail.throw
        refine ⟨hgains, ?_, ?_⟩
        · intro o ho
          cases ho
        · intro input' hi
          cases hi
  -- no copy is asked for, or the target is another place
  · rename_i hneeds
    obtain ⟨rfl, rfl⟩ := hopen.pure
    refine ⟨Gains.refl _, ?_, ?_⟩
    · intro o ho
      cases ho
    · intro input' hi
      cases hi
      refine ⟨rfl, ?_⟩
      intro hbackups hplace
      refine absurd ?_ hneeds
      have hplace := resolve_eq_iff.mpr hplace
      unfold Phase.needsCopy
      rw [hc.settings, hc.source, hc.target, hbackups, hdry, hplace]
      simp

/-- The outcome names the target and holds the code; the target's place, on a disk that has gained
directories and at most a copy of the source, has been given the code. -/
structure Phase.Outputs (s : Settings) (file code : String) (before : Disk) (o : Outcome Datum)
    (secured after : Disk) : Prop where
  answer : o.isError = false
  data : o.data = some (.text (Migration.targetName s file))
  holds : o.metadata.get? "generated_code" = some (.text code)
  gains : Gains (Migration.Copied s file before) before secured
  secures : s.flag .backups = true →
    Migration.targetPlace before.cwd s file = Migration.sourcePlace before.cwd file →
    secured.get? (Migration.copyPlace before.cwd s file) ≠ none
  leads : secured.find (Migration.targetName s file) = .ok (Migration.targetPlace before.cwd s file)
  noDirectory : secured.get? (Migration.targetPlace before.cwd s file) ≠ some .directory
  puts : after = secured.put (Migration.targetPlace before.cwd s file) (.file code.toUTF8)

/-- What was secured before the write is there after it. -/
theorem Stage.Writes.outputs {s : Settings} {file code : String} {page : Option Snapshot}
    {before secured e after : Disk} {o o' : Outcome Datum} {p : Route}
    (h : Stage.Writes c code secured o e p after) (hc : Migration.Fits s file page c)
    (hcwd : ".." ∉ before.cwd) (hends : o.EndsAs o')
    (hsecured : Gains (Migration.Copied s file before) before secured)
    (hcopy : s.flag .backups = true →
      Migration.targetPlace before.cwd s file = Migration.sourcePlace before.cwd file →
      secured.get? (Migration.copyPlace before.cwd s file) ≠ none) :
    Phase.Outputs s file code before o' e after := by
  have hgains : Gains (Migration.Copied s file before) secured e :=
    h.gains.mono fun _ _ hno => hno.elim
  have hsame : e.cwd = before.cwd := hgains.cwd.trans hsecured.cwd
  have hleads := h.leads
  rw [hc.target] at hleads
  have hplace : p = Migration.targetPlace before.cwd s file := by
    rw [Disk.find_place (by rwa [hsame]) hleads, hsame]
    rfl
  refine ⟨hends.isError, hends.data.trans (by rw [h.data, hc.target]), ?_, hsecured.trans hgains, ?_,
    ?_, ?_, ?_⟩
  · rw [hends.metadata, h.holds]
  · intro hbackups hover hnone
    cases hitem : secured.get? (Migration.copyPlace before.cwd s file) with
    | none => exact hcopy hbackups hover hitem
    | some item =>
      rw [hgains.stays hitem] at hnone
      cases hnone
  · rw [hleads, hplace]
  · rw [← hplace]
    exact h.noDirectory
  · rw [h.puts, hplace]

/-- The output job puts the code into the target, after a copy of the source if that is the same
place; or it is refused. -/
theorem Phase.output_leaves {s : Settings} {file code : String} {page : Option Snapshot}
    (hc : Migration.Fits s file page c) (hdry : s.flag .dryRun = false) (hcwd : ".." ∉ r.state.cwd)
    (h : Leaves (Phase.output.execute c (some (.text code))) r x r') :
    (Refused x ∧ Gains (Migration.Copied s file r.state) r.state r'.state) ∨
      ∃ o secured, x = .ok o ∧ Phase.Outputs s file code r.state o secured r'.state := by
  obtain ⟨y, u, hprepare, hrest⟩ := Job.execute_leaves rfl h
  obtain ⟨hsecured, hover, hready⟩ := Phase.secureSource_leaves hc hdry hcwd hprepare
  -- the source could not be secured, and the target is not touched
  rcases hrest with ⟨hr, ⟨e, rfl⟩ | ⟨o, ho, rfl⟩⟩ | ⟨input, v, z, v', rfl, hv, htask, hr, hanswer⟩
  · rw [hr]
    exact .inl ⟨refused_of_error e, hsecured⟩
  · rw [hr]
    exact .inl ⟨refused_of_isError (hover o ho), hsecured⟩
  obtain ⟨rfl, hcopy⟩ := hready input rfl
  obtain ⟨w, y, w', hw, hwrite, hrest⟩ := Task.executeFrom_leaves htask
  have hw : w.state = u.state := hw.trans hv
  rcases Stage.write_leaves (by rwa [hc.settings]) hwrite with ⟨hrefused, hgains⟩ | ⟨o, e, p, rfl, hwrites⟩
  -- the target could not be written
  · have hall : Gains (Migration.Copied s file r.state) u.state w'.state := by
      rw [← hw]
      exact hgains.mono fun _ _ hno => hno.elim
    rcases hrest with ⟨-, o, rfl, ho, hv'⟩ | ⟨o, q, rfl, hok, -, -⟩
    · rw [hr, hv']
      refine .inl ⟨?_, hsecured.trans hall⟩
      rcases hanswer with ⟨-, hanswer⟩ | ⟨o', o'', ho', hok, -, -⟩
      · exact hanswer
      · cases ho'
        rw [hok] at ho
        cases ho
    · rw [hrefused o rfl] at hok
      cases hok
  -- the target was written, and the job's outcome says so too
  · right
    rcases hrest with ⟨hrefused, -⟩ | ⟨o', q, ho', -, hq, hrest⟩
    · have hok := hwrites.answer
      rw [hrefused o rfl] at hok
      cases hok
    cases ho'
    obtain ⟨rfl, rfl⟩ := Task.executeFrom_nil hrest
    have hends := Outcome.endsAs_ofParts (o.nextInput (some (.text code))) [] o
    rcases hanswer with ⟨hrefused, -⟩ | ⟨o', o'', ho', -, rfl, hends'⟩
    · have hok := hrefused _ rfl
      rw [hends.isError] at hok
      cases hok
    cases ho'
    rw [hw] at hwrites
    refine ⟨o'', e, rfl, ?_⟩
    rw [hr, hq]
    exact hwrites.outputs hc hcwd (hends.trans hends') hsecured hcopy

/-! ## The file -/

namespace Migration

theorem filePipeline_leaves {s : Settings} {file source : String} {page : Option Snapshot}
    (hc : Fits s file page c) (hdry : s.flag .dryRun = false) (hcwd : ".." ∉ r.state.cwd)
    (hloads : Leaves (loadSnapshot s) r.state (.ok page) r.state)
    (hreads : Leaves (Filing.readText (sourceName file)) r.state (.ok source) r.state)
    (h : Leaves (filePipeline.execute c (some (.text source))) r x r') :
    Turn s file r.state x r'.state := by
  obtain ⟨t, ht, hjobs⟩ := h.publish_bind
  obtain ⟨y, u, hcollector, hrest⟩ := Pipeline.executeFrom_leaves hjobs
  obtain ⟨hu, hconverted⟩ := Phase.collector_leaves hcollector
  rw [ht] at hu
  rcases hrest with ⟨-, hr, hrefused⟩ | ⟨o, rfl, hok, hrest⟩
  · rw [hr, hu]
    exact .refused hrefused (Gains.refl _)
  rcases hconverted with hrefused | ⟨o', conversion, ho', -, hconversion, hdata⟩
  · rw [hrefused o rfl] at hok
    cases hok
  cases ho'
  rw [Outcome.handOn_of_text hok hdata] at hrest
  obtain ⟨y, v, houtput, hrest⟩ := Pipeline.executeFrom_leaves hrest
  have houtput := Phase.output_leaves hc hdry (by rwa [hu]) houtput
  rw [hu] at houtput
  rw [hc.settings, hc.page, hc.source, ht] at hconversion
  rcases houtput with ⟨hrefused, hgains⟩ | ⟨o', secured, rfl, houtputs⟩
  · rcases hrest with ⟨-, hr, hx⟩ | ⟨o', rfl, hok', -⟩
    · rw [hr]
      exact .refused hx hgains
    · rw [hrefused o' rfl] at hok'
      cases hok'
  · rcases hrest with ⟨hrefused, -⟩ | ⟨o'', ho'', -, hrest⟩
    · have hok' := houtputs.answer
      rw [hrefused o' rfl] at hok'
      cases hok'
    · cases ho''
      obtain ⟨rfl, hr⟩ := Pipeline.executeFrom_nil hrest
      have hends := Outcome.endsAs_ofParts (o'.handOn c (some (.text conversion.code))).2 ([] ++ [o]) o'
      rw [hr, houtputs.puts]
      exact .written hreads hloads hconversion houtputs.gains houtputs.secures houtputs.leads
        houtputs.noDirectory hends.isError (hends.data.trans houtputs.data)
        (by rw [hends.metadata, houtputs.holds])

/-- A migration that gets as far as its pipeline starts it on the text of the source, and has changed
nothing by then. -/
theorem migrateFile_begins {s : Settings} {file runId : String}
    (h : Leaves (migrateFile file s runId) r x r') :
    (Refused x ∧ r'.state = r.state) ∨ ∃ c page source,
      Fits s file page c ∧ Leaves (loadSnapshot s) r.state (.ok page) r.state ∧
      Leaves (Filing.readText (sourceName file)) r.state (.ok source) r.state ∧
      ∃ t, t.state = r.state ∧ Leaves (filePipeline.execute c (some (.text source))) t x r' := by
  have hkept : Reads (do
      let c ← contextOf file s runId
      return (.ok (c, ← readSource c.sourceFile s) : Except Failure (Context × String))) :=
    (reads_contextOf file s runId).bind fun c => (reads_readSource _ s).bind fun _ => reads_pure _
  rcases h.bind with ⟨begun, t, hbegin, hrest⟩ | ⟨e, hbegin, rfl⟩
  · rcases hbegin.tryCatch with ⟨a, hread, ha⟩ | ⟨e, u, hread, hfail⟩
    · cases ha
      rcases hread.onState.bind with ⟨c, d, hcontext, hread⟩ | ⟨e, -, he⟩
      · obtain ⟨rfl, page, hloads, hc⟩ := contextOf_leaves_ok hcontext
        rcases hread.bind with ⟨source, d, hsource, hread⟩ | ⟨e, -, he⟩
        · obtain ⟨rfl, hreads⟩ := readSource_leaves_ok hsource
          obtain ⟨hbegun, ht⟩ := hread.pure
          cases hbegun
          rw [hc.source] at hreads
          exact .inr ⟨c, page, source, hc, hloads, hreads, t, ht, hrest⟩
        · cases he
      · cases he
    · have hu := hkept _ _ _ hread.onState
      split at hfail
      · obtain ⟨ha, rfl⟩ := hfail.pure
        cases ha
        obtain ⟨rfl, rfl⟩ := hrest.pure
        exact .inl ⟨refused_of_isError rfl, hu.symm⟩
      · cases hfail.throw.1
  · rcases hbegin.tryCatch with ⟨a, -, ha⟩ | ⟨e, u, hread, hfail⟩
    · cases ha
    · have hu := hkept _ _ _ hread.onState
      split at hfail
      · cases hfail.pure.1
      · obtain ⟨-, rfl⟩ := hfail.throw
        exact .inl ⟨refused_of_error _, hu.symm⟩

/-- What the migration of a file comes to, and what it leaves. -/
theorem migrateFile_leaves {s : Settings} {file runId : String} (hdry : s.flag .dryRun = false)
    (hcwd : ".." ∉ r.state.cwd) (h : Leaves (migrateFile file s runId) r x r') :
    Turn s file r.state x r'.state := by
  rcases migrateFile_begins h with ⟨hrefused, hr⟩ | ⟨c, page, source, hc, hloads, hreads, t, ht, hrun⟩
  · rw [hr]
    exact .refused hrefused (Gains.refl _)
  · rw [← ht] at hloads hreads hcwd ⊢
    exact filePipeline_leaves hc hdry hcwd hloads hreads hrun

end Migration

end Jobs

end TestMigration
