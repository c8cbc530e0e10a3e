import TestMigration.Proofs.Clean
import TestMigration.Proofs.Discovery
import TestMigration.Proofs.FileConversion
import TestMigration.Proofs.Literals
import TestMigration.Settings.File

/-! Where an answer can fail to come. A settings file and a captured page must be texts, a path must be
clean, and no string literal of a file that a search looks into may escape a number that is no
character; whatever else there is to say against a file or a setting is an outcome. -/

namespace TestMigration

/-- Run on the disk, the work comes to an outcome. -/
def Answered {α : Type} (work : Work Disk (Outcome α)) (d : Disk) : Prop :=
  ∃ o r, work.run d = (.ok o, r)

theorem answered_of_no_error {α : Type} {work : Work Disk (Outcome α)} {d : Disk}
    (h : ∀ e r, ¬ Leaves work ⟨[], d⟩ (.error e) r) : Answered work d := by
  cases hwork : work ⟨[], d⟩ with
  | ok o r => exact ⟨o, r, run_of_leaves hwork⟩
  | error e r => exact absurd hwork (h e r)

theorem Confined.answered {α : Type} {work : Work Disk (Outcome α)} (h : Confined Never work)
    (d : Disk) : Answered work d := answered_of_no_error (h _)

/-! ## Texts -/

/-- The path is clean, and what it leads to, if it is a file, is a text. -/
structure Disk.IsText (d : Disk) (path : String) : Prop where
  clean : Clean path
  decodes : ∀ p bytes, d.find path = .ok p → d.get? p = some (.file bytes) →
    String.fromUTF8? bytes ≠ none

namespace Filing

variable {d : Disk} {path : String}

/-- A text is read, or the disk has something against it. -/
theorem readText_of_isText (h : d.IsText path) : (∃ text, Leaves (readText path) d (.ok text) d) ∨
    ∃ e, Leaves (readText path) d (.error e) d ∧ e.kind.isSystem = true := by
  cases hread : readText path d with
  | ok text d' =>
    cases reads_readText path d (.ok text) d' hread
    exact .inl ⟨text, hread⟩
  | error e d' =>
    cases reads_readText path d (.error e) d' hread
    refine .inr ⟨e, hread, ?_⟩
    rcases Leaves.bind (x := .error e) hread with ⟨bytes, t, hbytes, hdecode⟩ | ⟨e', hbytes, he⟩
    · obtain ⟨rfl, p, hp, hitem⟩ := readBytes_leaves_ok hbytes
      have hdecode := hdecode.ofExcept.1
      unfold textOfBytes at hdecode
      split at hdecode
      · cases hdecode
      · rename_i hnone
        exact absurd hnone (h.decodes p bytes hp hitem)
    · cases he
      exact confined_readBytes h.clean _ _ _ hbytes

theorem textOfBytes_of_invalid {bytes : ByteArray} (h : String.fromUTF8? bytes = none) :
    ∃ e, textOfBytes bytes = .error e ∧ e.kind = .undecodable := by
  unfold textOfBytes
  rw [h]
  exact ⟨_, rfl, rfl⟩

/-- Anything else is refused in a way that no one expects of a disk. -/
theorem readText_of_not_isText (h : ¬ d.IsText path) : ∃ e, Leaves (readText path) d (.error e) d ∧
    (e.kind = .badValue ∨ e.kind = .undecodable) := by
  by_cases hclean : Clean path
  · have hdecodes : ∃ p bytes, d.find path = .ok p ∧ d.get? p = some (.file bytes) ∧
        String.fromUTF8? bytes = none := by
      by_contra hno
      refine h ⟨hclean, fun p bytes hp hitem hnone => hno ⟨p, bytes, hp, hitem, hnone⟩⟩
    obtain ⟨p, bytes, hp, hitem, hnone⟩ := hdecodes
    have hbytes : Leaves (readBytes path) d (.ok bytes) d := by
      unfold readBytes Leaves
      rw [(find_of_ok hp "open").of_bind_ok, (Leaves.of_get d).of_bind_ok, hitem]
      rfl
    obtain ⟨e, he, hkind⟩ := textOfBytes_of_invalid hnone
    refine ⟨e, ?_, .inr hkind⟩
    unfold readText Leaves
    rw [hbytes.of_bind_ok, he]
    rfl
  · have hzero : d.find path = .error .zero := Disk.find_of_not_clean hclean d
    refine ⟨Fault.failure path "open" .zero, ?_, .inl rfl⟩
    have hfind : Leaves (find path "open") d (.error (Fault.failure path "open" .zero)) d := by
      unfold find Leaves
      rw [(Leaves.of_get d).of_bind_ok, hzero]
      rfl
    have hbytes : Leaves (readBytes path) d (.error (Fault.failure path "open" .zero)) d :=
      hfind.of_bind_error
    exact hbytes.of_bind_error

end Filing

/-! ## Settings files -/

namespace Settings

/-- The failures that checks of settings end with. -/
def Told (k : FailureKind) : Prop := k = .configuration ∨ k = .wrongType ∨ k = .badValue

theorem told_override (s : Settings) (entries : Entries) : Among Told (s.override entries) := by
  refine among_stepwise.foldlM (fun s entry => ?_) entries s
  dsimp only
  split
  · exact among_stepwise.pure _
  · exact among_throw (.inr (.inl rfl))

theorem told_checkAttribute (s : Settings) : Among Told s.checkAttribute := by
  unfold checkAttribute
  dsimp only
  split
  · exact among_throw (.inl rfl)
  · split
    · split
      · exact among_stepwise.pure _
      · exact among_throw (.inl rfl)
    · exact among_throw (.inr (.inl rfl))

theorem told_checkLogLevel (s : Settings) : Among Told s.checkLogLevel := by
  unfold checkLogLevel
  dsimp only
  split
  · exact among_stepwise.pure _
  · exact among_throw (.inl rfl)

theorem told_whole (v : Value) : Among Told (Setting.whole v) := by
  unfold Setting.whole
  split
  · exact among_stepwise.pure _
  · exact among_stepwise.pure _
  · exact among_stepwise.pure _
  · split
    · exact among_stepwise.pure _
    · exact among_throw (.inr (.inr rfl))
  · exact among_throw (.inr (.inl rfl))

theorem told_checkSize (s : Settings) : Among Told s.checkSize := by
  refine among_stepwise.bind (told_whole _) fun size => ?_
  split
  · exact among_stepwise.pure _
  · exact among_throw (.inl rfl)

theorem told_checkPatterns (s : Settings) : Among Told s.checkPatterns := by
  unfold checkPatterns
  split
  · exact among_stepwise.pure _
  · exact among_throw (.inl rfl)

theorem told_ofEntries (entries : Entries) : Among Told (ofEntries entries) := by
  refine among_stepwise.bind (told_override _ _) fun s => ?_
  have hcheck : Among Told s.check :=
    among_stepwise.bind s.told_checkAttribute fun _ => among_stepwise.bind s.told_checkLogLevel
      fun _ => among_stepwise.bind s.told_checkSize fun _ => s.told_checkPatterns
  exact among_stepwise.bind hcheck fun _ => among_stepwise.pure _

theorem told_ofText (text : String) : Among Told (ofText text) := by
  unfold ofText
  split
  · exact among_throw (.inl rfl)
  · exact told_ofEntries _
  · exact among_throw (.inl rfl)

variable {file : String} {d d' : Disk}

theorem isText_of_load {o : Outcome Settings} (h : Leaves (load file) d (.ok o) d') :
    d.IsText file := by
  by_contra hno
  obtain ⟨e, hread, hkind⟩ := Filing.readText_of_not_isText hno
  obtain ⟨begun, t, hbegin, -⟩ := h.bind_ok
  rcases hbegin.attempt with ⟨text, htext, -⟩ | ⟨e', u, hfail, hhandler⟩
  · cases (htext.unique hread).1
  · cases (hfail.unique hread).1
    have hkinds : e.kind ≠ .noSuchFile ∧ e.kind.isSystem = false := by
      rcases hkind with hkind | hkind
      · simp [hkind, FailureKind.isSystem]
      · simp [hkind, FailureKind.isSystem]
    rw [if_neg (by simpa using hkinds.1), if_neg (by simp [hkinds.2])] at hhandler
    cases hhandler.throw.1

theorem not_load_fails (htext : d.IsText file) {e : Failure} : ¬ Leaves (load file) d (.error e) d' := by
  intro h
  rcases h.bind with ⟨begun, t, hbegin, hrest⟩ | ⟨e', hbegin, he⟩
  · cases begun with
    | error e' => cases hrest.pure.1
    | ok text =>
      dsimp only at hrest
      cases hsettings : ofText text with
      | ok s =>
        rw [hsettings] at hrest
        cases hrest.pure.1
      | error e' =>
        rw [hsettings] at hrest
        rcases told_ofText text e' hsettings with hkind | hkind | hkind
        all_goals
          dsimp only at hrest
          rw [hkind] at hrest
          cases hrest.pure.1
  · rcases hbegin.attempt with ⟨text, -, he⟩ | ⟨e'', u, hfail, hhandler⟩
    · cases he
    · have hsystem : e''.kind.isSystem = true := by
        rcases Filing.readText_of_isText htext with ⟨text, hok⟩ | ⟨e₁, herror, hsystem⟩
        · cases (hfail.unique hok).1
        · cases (hfail.unique herror).1
          exact hsystem
      split at hhandler
      · cases hhandler.pure.1
      · cases hhandler.pure.1

/-- A settings file is loaded, or told what is wrong with it, just if it is a text. -/
theorem load_answers_iff (file : String) (d : Disk) :
    (∃ o d', Leaves (load file) d (.ok o) d') ↔ d.IsText file := by
  constructor
  · intro ⟨o, d', h⟩
    exact isText_of_load h
  · intro htext
    cases h : load file d with
    | ok o d' => exact ⟨o, d', h⟩
    | error e d' => exact absurd h (not_load_fails htext)

end Settings

/-- The paths that the settings name, if any, are clean, and the size limit is a number. -/
structure Settings.Usable (s : Settings) : Prop where
  page : ∀ f, s.text? .snapshotFile = some f → Clean f
  copies : ∀ f, s.text? .backupRoot = some f → Clean f
  limit : ∀ bytes, ∃ refuses, s.refusesSize bytes = .ok refuses

/-! ## Conversions in memory -/

namespace Migration

variable {s : Settings} {d : Disk}

/-- The page that the settings name, if they name one, is a text. -/
def PageIsText (s : Settings) (d : Disk) : Prop :=
  ∀ f, s.text? .snapshotFile = some f → d.IsText (toString (PathName.ofString f))

theorem loadSnapshot_of_pageIsText (h : PageIsText s d) :
    (∃ page, Leaves (loadSnapshot s) d (.ok page) d) ∨
      ∃ e, Leaves (loadSnapshot s) d (.error e) d ∧ e.kind.isSystem = true := by
  unfold loadSnapshot
  cases hf : s.text? .snapshotFile with
  | none => exact .inl ⟨none, rfl⟩
  | some f =>
    rcases Filing.readText_of_isText (h f hf) with ⟨text, hread⟩ | ⟨e, hread, hsystem⟩
    · exact .inl ⟨some (Snapshot.ofMarkup text), hread.of_bind_ok⟩
    · exact .inr ⟨e, hread.of_bind_error, hsystem⟩

theorem loadSnapshot_of_not_pageIsText (h : ¬ PageIsText s d) :
    ∃ e, Leaves (loadSnapshot s) d (.error e) d ∧ e.kind.isSystem = false := by
  unfold PageIsText at h
  push Not at h
  obtain ⟨f, hf, hno⟩ := h
  obtain ⟨e, hread, hkind⟩ := Filing.readText_of_not_isText hno
  refine ⟨e, ?_, ?_⟩
  · unfold loadSnapshot
    rw [hf]
    exact hread.of_bind_error
  · rcases hkind with hkind | hkind
    · rw [hkind]
      rfl
    · rw [hkind]
      rfl

/-- A text in memory is converted, or told what is wrong with it, just if the captured page is a
text. -/
theorem convertSource_answered_iff (source file : String) (s : Settings) (runId : String) (d : Disk) :
    Answered (convertSource source file s runId) d ↔ PageIsText s d := by
  constructor
  · intro ⟨o, r, hrun⟩
    by_contra hno
    obtain ⟨e, hload, hkind⟩ := loadSnapshot_of_not_pageIsText hno
    obtain ⟨loaded, t, hbegin, -⟩ := (leaves_of_run hrun).bind_ok
    rcases hbegin.attempt with ⟨page, hpage, -⟩ | ⟨e', u, hfail, hhandler⟩
    · cases (hpage.onState.unique hload).1
    · cases (hfail.onState.unique hload).1
      rw [if_neg (by simp [hkind])] at hhandler
      cases hhandler.throw.1
  · intro hpage
    refine answered_of_no_error fun e r h => ?_
    rcases h.bind with ⟨loaded, t, -, hrest⟩ | ⟨e', hbegin, -⟩
    · cases loaded with
      | error e' => cases hrest.pure.1
      | ok page => exact confined_sourcePipeline (K := Never) source _ _ _ hrest
    · rcases hbegin.attempt with ⟨page, -, he⟩ | ⟨e'', u, hfail, hhandler⟩
      · cases he
      · rcases loadSnapshot_of_pageIsText hpage with ⟨page, hok⟩ | ⟨e₁, herror, hsystem⟩
        · cases (hfail.onState.unique hok).1
        · cases (hfail.onState.unique herror).1
          rw [if_pos hsystem] at hhandler
          cases hhandler.pure.1

/-! ## Files -/

variable {file runId : String}

theorem invalidPath_check {role given shown : String} {p : PathName} :
    Among (fun k => k = .invalidPath) (PathName.check role given shown p) := by
  unfold PathName.check
  split
  · exact among_throw rfl
  · split
    · exact among_throw rfl
    · exact among_stepwise.pure _

theorem invalidPath_ofSource : Among (fun k => k = .invalidPath) (PathName.ofSource file) :=
  invalidPath_check

theorem invalidPath_targetOf (source : PathName) :
    Among (fun k => k = .invalidPath) (targetOf source s) := by
  unfold targetOf PathName.ofTarget
  exact invalidPath_check

/-- A failure that becomes the outcome of a file. -/
def Reported (k : FailureKind) : Prop := isReported k = true

theorem reported_of_read {k : FailureKind} (h : System k ∨ k = .undecodable) : Reported k := by
  unfold Reported isReported
  rcases h with hsystem | rfl
  · rw [show k.isSystem = true from hsystem]
    simp
  · rfl

theorem confined_loadSnapshot (hs : s.Usable) :
    Confined Reported (loadSnapshot s) := by
  unfold loadSnapshot
  split
  · exact confined_pure _
  · rename_i f hf
    have hclean : Clean (toString (PathName.ofString f)) :=
      (PathName.clean_ofString (hs.page f hf)).toString
    exact ((Filing.confined_readText hclean).mono fun _ => reported_of_read).bind
      fun _ => confined_pure _

theorem confined_contextOf (hs : s.Usable) :
    Confined Reported (contextOf file s runId) := by
  have hchecked : ∀ {x : Except Failure PathName}, Among (fun k => k = .invalidPath) x →
      Confined (σ := Disk) Reported (MonadExcept.ofExcept x) := by
    intro x hx
    refine confined_ofExcept fun e he => ?_
    rw [hx e he]
    rfl
  refine (hchecked invalidPath_ofSource).bind fun source => ?_
  refine (hchecked (invalidPath_targetOf source)).bind fun target => ?_
  exact (confined_loadSnapshot hs).bind fun page => confined_pure _

theorem confined_readSource (hs : s.Usable) {path : String} (hpath : Clean path) :
    Confined Reported (readSource path s) := by
  refine ((Filing.confined_size hpath).mono fun k hk => reported_of_read (.inl hk)).bind
    fun size => ?_
  obtain ⟨refuses, hlimit⟩ := hs.limit size
  have hlimited : Confined (σ := Disk) Reported
      (MonadExcept.ofExcept (s.refusesSize size)) := by
    refine confined_ofExcept fun e he => ?_
    rw [hlimit] at he
    cases he
  have hread : Confined Reported (Filing.readText path) :=
    (Filing.confined_readText hpath).mono fun _ => reported_of_read
  refine hlimited.bind fun refuses => ?_
  cases refuses with
  | true =>
    refine Confined.bind (confined_throw ?_) fun _ => hread
    exact (rfl : isReported .validation = true)
  | false => exact hread

/-- Whatever the disk holds, the migration of a file comes to an outcome. -/
theorem confined_migrateFile (hs : s.Usable) (hfile : Clean file) :
    Confined Never (migrateFile file s runId) := by
  have hname : Clean (sourceName file) := (PathName.clean_ofString hfile).toString
  have hbegin : Confined Reported (do
      let c ← contextOf file s runId
      return (.ok (c, ← readSource c.sourceFile s) : Except Failure (Context × String))) := by
    refine (confined_contextOf hs).bind_ok fun c d d' hc => ?_
    obtain ⟨-, page, -, hfits⟩ := contextOf_leaves_ok hc
    rw [hfits.source]
    exact (confined_readSource hs hname).bind fun _ => confined_pure _
  refine (hbegin.onState.tryCatch_if fun k hk hno => ?_).bind_ok fun begun r r' hbegun => ?_
  · rw [show isReported k = true from hk] at hno
    cases hno
  cases begun with
  | error e => exact confined_pure _
  | ok both =>
    obtain ⟨c, source⟩ := both
    rcases hbegun.tryCatch with ⟨a, hread, ha⟩ | ⟨e, u, -, hfail⟩
    · cases ha
      rcases hread.onState.bind with ⟨c', d, hcontext, hread⟩ | ⟨e, -, he⟩
      · obtain ⟨-, page, -, hfits⟩ := contextOf_leaves_ok hcontext
        obtain ⟨source', t, -, hread⟩ := hread.bind_ok
        cases hread.pure.1
        refine confined_filePipeline (Phase.confined_secureSource ?_ ?_)
        · rw [hfits.source]
          exact hname
        · intro directory hd
          rw [hfits.settings] at hd
          exact hs.copies directory hd
      · cases he
    · split at hfail
      · cases hfail.pure.1
      · cases hfail.throw.1

end Migration

/-! ## Directories -/

/-- A script at this path, if there is one, has a value for each of its string literals. -/
def Disk.Spelt (d : Disk) (path : String) : Prop :=
  ∀ text doc, Leaves (Filing.readText path) d (.ok text) d →
    Document.ofString (some path) text = .ok doc → doc.spelt = true

/-- The search takes each pattern of file names. -/
def Settings.Searchable (s : Settings) : Prop := ∀ pattern ∈ s.patterns, Discovery.Taken s pattern

/-- No name on the disk holds a zero character. -/
def Disk.CleanNames (d : Disk) : Prop := ∀ e ∈ d.items, ∀ name ∈ e.1, Clean name

/-- The file is one that a pattern of the settings finds below the directory. -/
def Disk.Finds (d : Disk) (directory : PathName) (s : Settings) (p : PathName) : Prop :=
  ∃ pattern ∈ s.patterns, p ∈ Discovery.listed d directory s pattern

namespace Discovery

variable {s : Settings} {d : Disk} {path : String}

theorem passed_ofSource {file : Option String} {source : String}
    (h : ∀ doc, Document.ofString file source = .ok doc → doc.spelt = true) :
    Among Passed (Usage.ofSource file source) := by
  intro e he
  unfold Usage.ofSource at he
  cases hdoc : Document.ofString file source with
  | ok doc =>
    rw [hdoc] at he
    exact passed_usage (h doc hdoc) e he
  | error e' =>
    rw [hdoc] at he
    cases he
    unfold Document.ofString Document.ofBytes at hdoc
    split at hdoc
    · cases hdoc
      rfl
    · cases hdoc

theorem passed_usesLegacy (hs : s.Usable) (hpath : Clean path) (hspelt : d.Spelt path) {e : Failure}
    {d' : Disk} (h : Leaves (usesLegacy path s) d (.error e) d') : Passed e.kind := by
  have hread : ∀ {k : FailureKind}, System k ∨ k = .undecodable → Passed k := by
    intro k hk
    unfold Passed isPassedBy
    rcases hk with hsystem | rfl
    · rw [show k.isSystem = true from hsystem]
      rfl
    · rfl
  rcases h.bind with ⟨size, t, hsize, h⟩ | ⟨e', hsize, he⟩
  · cases Filing.reads_size path _ _ _ hsize
    rcases h.bind with ⟨refuses, t, hlimit, h⟩ | ⟨e', hlimit, -⟩
    · obtain ⟨-, rfl⟩ := hlimit.ofExcept
      cases refuses with
      | true => cases h.pure.1
      | false =>
        rcases h.bind with ⟨text, u, htext, h⟩ | ⟨e', htext, he⟩
        · cases Filing.reads_readText path _ _ _ htext
          rcases h.bind with ⟨usage, u, -, h⟩ | ⟨e', husage, he⟩
          · cases h.pure.1
          · cases he
            exact passed_ofSource (fun doc => hspelt text doc htext) e husage.ofExcept.1.symm
        · cases he
          exact hread (Filing.confined_readText hpath _ _ _ htext)
    · obtain ⟨refuses, hok⟩ := hs.limit size
      rw [hok] at hlimit
      cases hlimit.ofExcept.1
  · cases he
    exact hread (.inl (Filing.confined_size hpath _ _ _ hsize))

theorem keeps_answers (hs : s.Usable) (hpath : Clean path) (hspelt : d.Spelt path) :
    (keeps s path).Answers d := by
  cases h : keeps s path d with
  | ok kept d' => exact Filing.Reads.answers (Migration.reads_keeps s path) h
  | error e d' =>
    have h : Leaves (keeps s path) d (.error e) d' := h
    rcases h.tryCatch with ⟨a, -, ha⟩ | ⟨e', t, hfail, h⟩
    · cases ha
    · rw [if_pos (show isPassedBy e'.kind = true from
        passed_usesLegacy hs hpath hspelt hfail)] at h
      cases h.pure.1

/-- What a search finds has the names of the disk after those of the directory. -/
theorem clean_of_finds {directory p : PathName} (hpatterns : s.Searchable) (hd : d.CleanNames)
    (hdirectory : directory.Clean) (h : d.Finds directory s p) : Clean (toString p) := by
  obtain ⟨pattern, hpattern, hp⟩ := h
  obtain ⟨place, names, -, hnames, -, rfl⟩ := (mem_listed (hpatterns pattern hpattern)).mp hp
  obtain ⟨⟨q, item⟩, hq, hnames⟩ := List.mem_filterMap.mp hnames
  refine PathName.Clean.toString fun part hpart => ?_
  rcases List.mem_append.mp hpart with hpart | hpart
  · exact hdirectory part hpart
  · dsimp only at hnames
    split at hnames
    · split at hnames
      · cases hnames
        exact hd _ hq part (List.mem_of_mem_drop hpart)
      · cases hnames
    · cases hnames

/-- No file that is found ends the search, and none has a name with a zero character. -/
theorem below_finishes {directory : PathName} (hs : s.Usable) (hpatterns : s.Searchable)
    (hd : d.CleanNames) (hdirectory : directory.Clean)
    (hspelt : ∀ p, d.Finds directory s p → d.Spelt (toString p)) :
    ∃ files, Leaves (below directory s) d (.ok files) d ∧ ∀ file ∈ files, Clean file := by
  obtain ⟨files, hfiles, hmem⟩ := below_answers (d := d) hpatterns fun pattern hpattern p hp =>
    have hfound : d.Finds directory s p := ⟨pattern, hpattern, hp⟩
    keeps_answers hs (clean_of_finds hpatterns hd hdirectory hfound) (hspelt p hfound)
  refine ⟨files, hfiles, fun file hfile => ?_⟩
  obtain ⟨⟨pattern, hpattern, p, hp, rfl⟩, -⟩ := (hmem file).mp hfile
  exact clean_of_finds hpatterns hd hdirectory ⟨pattern, hpattern, hp⟩

end Discovery

namespace Migration

variable {s : Settings} {d : Disk} {directory runId : String}

theorem confined_migrateFound (hs : s.Usable) (files : List String) (hfiles : ∀ f ∈ files, Clean f)
    (t : Tally) : Confined Never (migrateFound s runId files t) := by
  induction files generalizing t with
  | nil => exact confined_pure _
  | cons file rest ih =>
    have hrest := ih fun f hf => hfiles f (List.mem_cons_of_mem _ hf)
    refine (confined_migrateFile hs (hfiles file List.mem_cons_self)).bind fun outcome => ?_
    split
    · dsimp only
      split
      · exact confined_pure _
      · exact hrest _
    · exact hrest _

/-- A path that leads somewhere holds no zero character. -/
theorem clean_of_isDirectory {p : PathName} (h : d.isDirectory (toString p) = true) : p.Clean := by
  refine PathName.clean_of_toString ?_
  by_contra hzero
  unfold Disk.isDirectory Disk.item? at h
  rw [Disk.find_of_not_clean hzero] at h
  cases h

/-- The migration of a directory comes to an outcome if every file that the search lists has a value
for each of its string literals. -/
theorem migrateDirectory_answered (hs : s.Usable) (hpatterns : s.Searchable) (hd : d.CleanNames)
    (hspelt : ∀ p, d.Finds (PathName.ofString directory) s p → d.Spelt (toString p)) :
    Answered (migrateDirectory directory s runId) d := by
  refine answered_of_no_error fun e r h => ?_
  cases hsource : PathName.ofSource directory with
  | error e' =>
    unfold migrateDirectory at h
    rw [hsource] at h
    cases h.pure.1
  | ok source =>
    cases hopen : d.isDirectory (toString source) with
    | false =>
      unfold migrateDirectory at h
      rw [hsource] at h
      have h := h.get_bind
      rw [if_pos (by simp [hopen])] at h
      cases h.pure.1
    | true =>
      cases ofSource_ok hsource
      obtain ⟨files, hfiles, hclean⟩ := Discovery.below_finishes hs hpatterns hd
        (clean_of_isDirectory hopen) hspelt
      rcases migrateDirectory_leaves hsource hfiles h with
        ⟨-, e', he⟩ | ⟨-, -, he⟩ | hfound
      · cases he
      · cases he
      · exact confined_migrateFound hs files hclean {} _ _ _ hfound

/-- A directory with a script and a page that are no texts. -/
def besideNoText : Disk where
  items := [(["w"], .directory), (["w", "a.test.js"], .file ⟨#[0xff]⟩),
    (["w", "p.html"], .file ⟨#[0xff]⟩)]
  cwd := ["w"]

theorem no_text {bytes : ByteArray} {p : Route} (h : besideNoText.get? p = some (.file bytes)) :
    String.fromUTF8? bytes = none := by
  have hitem := Disk.mem_of_file h
  simp only [besideNoText, List.mem_cons, List.not_mem_nil, or_false, Prod.mk.injEq] at hitem
  rcases hitem with ⟨-, hbytes⟩ | ⟨-, hbytes⟩ | ⟨-, hbytes⟩
  · cases hbytes
  · cases hbytes
    decide
  · cases hbytes
    decide

end Migration

end TestMigration
