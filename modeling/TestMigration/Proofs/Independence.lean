import TestMigration.Proofs.Abreast

/-! One file on a disk that others have worked on. What the migration of a file looks at are its source,
its target, the place of the copy, and the captured page; so long as the others keep away from these, it
comes to what it would have come to without them. -/

namespace TestMigration

open Disk (Abreast Meanwhile Usable)

/-! ## The paths of a file -/

namespace PathName

theorem slashes_ofString_le (s : String) : (ofString s).slashes ≤ 2 := by
  change leadingSlashes _ _ ≤ 2
  unfold leadingSlashes
  split <;> decide

theorem slashes_ofString_toString {p : PathName} (hp : p.Proper) (hslashes : p.slashes ≤ 2) :
    (ofString (toString p)).slashes = p.slashes := by
  have hcount : ∀ text : List Char, text.head? ≠ some '/' →
      leadingSlashes (· == '/') (List.replicate p.slashes '/' ++ text) = p.slashes := by
    intro text htext
    have hnone : text.takeWhile (· == '/') = [] := by
      cases text with
      | nil => rfl
      | cons c rest => exact List.takeWhile_cons_of_neg (by simpa using htext)
    unfold leadingSlashes
    rw [List.takeWhile_append_of_pos (by simp), hnone, List.append_nil, List.length_replicate]
    match hn : p.slashes with
    | 0 | 1 | 2 => rfl
    | n + 3 => omega
  have hhead : ("/".intercalate p.parts).toList.head? ≠ some '/' := by
    cases hparts : p.parts with
    | nil => simp
    | cons first rest =>
      have hfirst := hp first (hparts ▸ List.mem_cons_self)
      obtain ⟨c, cs, hc⟩ := List.exists_cons_of_ne_nil (mt String.toList_eq_nil_iff.mp hfirst.1)
      have hno : c ≠ '/' := by
        rintro rfl
        exact hfirst.2.2 (hc ▸ List.mem_cons_self)
      have hbegins : ∃ more, "/".intercalate (first :: rest) = first ++ more := by
        cases rest with
        | nil => exact ⟨"", by simp⟩
        | cons second rest =>
          exact ⟨"/" ++ "/".intercalate (second :: rest), by
            rw [String.intercalate_cons_cons, String.append_assoc]⟩
      obtain ⟨more, hmore⟩ := hbegins
      rw [hmore, String.toList_append, hc]
      simpa using hno
  unfold ofString
  dsimp only
  by_cases hnothing : p.slashes = 0 ∧ p.parts = []
  · rw [toString_of_nothing hnothing.1 hnothing.2, hnothing.1]
    rfl
  · have htext : toString p = String.ofList (List.replicate p.slashes '/') ++ "/".intercalate p.parts := by
      by_cases hparts : p.parts = []
      · exact toString_of_slashes fun h => hnothing ⟨h, hparts⟩
      · exact toString_of_parts hp hparts
    rw [htext, String.toList_append, String.toList_ofList]
    exact hcount _ hhead

/-- A name that was read is read again as the same name. -/
theorem ofString_toString_ofString (s : String) : ofString (toString (ofString s)) = ofString s := by
  have hslashes := slashes_ofString_toString (proper_ofString s) (slashes_ofString_le s)
  have hparts := parts_ofString_toString (proper_ofString s)
  cases h : ofString (toString (ofString s)) with
  | mk slashes parts =>
    rw [h] at hslashes hparts
    dsimp only at hslashes hparts
    rw [hslashes, hparts]

theorem Proper.join {p q : PathName} (hp : p.Proper) (hq : q.Proper) : (p.join q).Proper :=
  fun part hpart => (mem_parts_join hpart).elim (hp part) (hq part)

theorem Proper.backup {p : PathName} (hp : p.Proper) (directory : Option String) :
    (p.backup directory).Proper := by
  refine Proper.join ?_ (proper_ofString _)
  cases directory with
  | none => exact hp.parent
  | some root =>
    dsimp only
    split
    · exact hp.parent
    · exact proper_ofString root

end PathName

namespace Migration

/-- The path of a target, read. -/
def targetPath (s : Settings) (file : String) : PathName := .ofString (targetName s file)

/-- The path of a copy. -/
def copyPath (s : Settings) (file : String) : PathName :=
  (PathName.ofString (sourceName file)).backup (s.text? .backupRoot)

/-- Is the source of a file its target, so that a copy is kept first? -/
def keepsCopy (s : Settings) (cwd : Route) (file : String) : Bool :=
  s.flag .backups && targetPlace cwd s file == sourcePlace cwd file

/-- The paths that the migration of a file may use. -/
def paths (s : Settings) (cwd : Route) (file : String) : List PathName :=
  [PathName.ofString file, targetPath s file] ++
    if keepsCopy s cwd file then [copyPath s file] else []

/-- The places that they name. -/
def places (s : Settings) (d : Disk) (file : String) : List Route :=
  (paths s d.cwd file).map d.placeFor

variable {s : Settings} {file runId : String}

theorem toString_targetPath (s : Settings) (file : String) :
    toString (targetPath s file) = targetName s file := by
  unfold targetPath targetName
  rw [PathName.ofString_toString_ofString]

theorem proper_of_mem_paths {cwd : Route} {name : PathName} (h : name ∈ paths s cwd file) :
    name.Proper := by
  rcases List.mem_append.mp h with h | h
  · rcases List.mem_pair.mp h with rfl | rfl
    · exact PathName.proper_ofString _
    · exact PathName.proper_ofString _
  · split at h
    · rw [List.mem_singleton.mp h]
      exact (PathName.proper_ofString _).backup _
    · cases h

theorem source_mem_paths (s : Settings) (cwd : Route) (file : String) :
    PathName.ofString file ∈ paths s cwd file := by simp [paths]

theorem target_mem_paths (s : Settings) (cwd : Route) (file : String) :
    targetPath s file ∈ paths s cwd file := by simp [paths]

theorem copy_mem_paths {cwd : Route} (h : keepsCopy s cwd file = true) :
    copyPath s file ∈ paths s cwd file := by simp [paths, h]

end Migration

/-! ## The steps -/

section Steps

variable {R : Disk → Disk → Prop} {name : String} {c : Context}

theorem Stage.twofold_parse (input : Option Datum) :
    Twofold (OnState R) ((Stage.parse name).execute c input) := by
  unfold Stage.parse
  dsimp only
  split
  · split
    · exact twofold_pure _
    · split
      · exact twofold_pure _
      · exact twofold_throw _
  · exact twofold_throw _

theorem Stage.twofold_publishFindings (findings : List Diagnostic) :
    Twofold (OnState R) (Stage.publishFindings c findings) :=
  twofold_stepwise.forM (fun _ => twofold_publish c _) findings

/-- The conversion asks the disk for the working directory only. -/
theorem Stage.twofold_convert (hcwd : ∀ e e', R e e' → e'.cwd = e.cwd) (input : Option Datum) :
    Twofold (OnState R) ((Stage.convert name).execute c input) := by
  unfold Stage.convert
  dsimp only
  split
  · intro r r' h
    refine concurs_get_bind (by rw [hcwd _ _ h]) ?_
    split
    · refine Twofold.bind (Stage.twofold_publishFindings _) (fun _ => ?_) r r' h
      split
      · exact twofold_pure _
      · exact twofold_throw _
    · refine Twofold.bind (Stage.twofold_publishFindings _) (fun _ => ?_) r r' h
      exact (twofold_publish c _).bind fun _ => twofold_pure _
  · exact twofold_throw _

theorem Stage.twofold_generate (input : Option Datum) :
    Twofold (OnState R) ((Stage.generate name).execute c input) := by
  unfold Stage.generate
  dsimp only
  split
  · exact (twofold_ofExcept _).bind fun _ => twofold_pure _
  · exact twofold_throw _

theorem Phase.twofold_collector (hcwd : ∀ e e', R e e' → e'.cwd = e.cwd) (source : String) :
    Twofold (OnState R) (Phase.collector.execute c (some (.text source))) := by
  refine Job.twofold rfl (twofold_pure _) fun input => Task.twofold (fun p hp input => ?_) input
  simp only [List.mem_cons, List.not_mem_nil, or_false] at hp
  rcases hp with rfl | rfl | rfl
  · exact Stage.twofold_parse input
  · exact Stage.twofold_convert hcwd input
  · exact Stage.twofold_generate input

end Steps

section Output

variable {others own : List Route} {d d' : Disk} {name : String} {c : Context} {s : Settings}
  {file : String} {page : Option Snapshot}

/-- A directory is made, and what follows begins where the path leads somewhere. -/
theorem twofold_ready_bind {α : Type} {p : PathName} {m : Filing Unit} {f : Unit → Work Disk α}
    (hready : Filing.Readies own d d' p m)
    (hf : ∀ r r', OnState (Abreast own d d') r r' → r.state.find (toString p) ≠ .error .missing →
      Concurs (OnState (Abreast own d d')) (f ()) r r') :
    Twofold (OnState (Abreast own d d')) (Work.onState m >>= f) := by
  intro r r' h
  rcases hready h with ⟨e, he, he'⟩ | ⟨t, t', ht, ht', habreast, hleads⟩
  · exact ⟨.error e, r, r', he.of_state.of_bind_error, he'.of_state.of_bind_error, h⟩
  · obtain ⟨x, u, u', hx, hx', hu⟩ := hf { r with state := t } { r' with state := t' } habreast hleads
    exact ⟨x, u, u', ht.of_state.of_bind_ok.trans hx, ht'.of_state.of_bind_ok.trans hx', hu⟩

theorem Stage.twofold_write (hm : Meanwhile others own d d') {target : PathName}
    (hname : c.targetFile = toString target) (hagain : PathName.ofString c.targetFile = target)
    (htarget : Usable others d target) (hown : d.placeFor target ∈ own) (input : Option Datum) :
    Twofold (OnState (Abreast own d d')) ((Stage.write name).execute c input) := by
  unfold Stage.write
  dsimp only
  split
  · exact twofold_pure _
  refine Twofold.tryCatch ?_ fun e => ?_
  · rw [hagain, hname]
    refine twofold_ready_bind (Filing.readies_ensureParent hm htarget hown) fun r r' h hready => ?_
    have hwrite : ∀ text, Concurs (OnState (Abreast own d d'))
        (Work.onState (Filing.writeText (toString target) text)) r r' :=
      fun text => (Filing.concurs_writeBytes hm htarget hown h hready _).onState
    split
    · exact (hwrite _).bind fun _ => twofold_pure _
    · exact (hwrite _).bind fun _ => twofold_throw _
  · split
    · exact twofold_pure _
    · exact twofold_throw _

theorem Phase.twofold_secureSource (hm : Meanwhile others own d d')
    (hc : Migration.Fits s file page c)
    (hnames : ∀ p ∈ Migration.paths s d.cwd file, Usable others d p ∧ d.placeFor p ∈ own)
    (input : Option Datum) :
    Twofold (OnState (Abreast own d d')) (Phase.secureSource name c input) := by
  intro r r' h
  have hcwd : r.state.cwd = d.cwd := h.grows.cwd
  refine concurs_get_bind (by rw [(h.added hm).cwd]) ?_
  split
  · rename_i hneeds
    have hkeeps : Migration.keepsCopy s d.cwd file = true := by
      unfold Phase.needsCopy at hneeds
      dsimp only at hneeds
      rw [hcwd, hc.settings, hc.source, hc.target] at hneeds
      simp only [Bool.and_eq_true, beq_iff_eq] at hneeds
      unfold Migration.keepsCopy
      rw [hneeds.1.1, Bool.true_and, beq_iff_eq]
      exact resolve_eq_iff.mp hneeds.1.2
    have hcopy := hnames _ (Migration.copy_mem_paths hkeeps)
    have hsource := hnames _ (Migration.source_mem_paths s d.cwd file)
    have hkeep : Twofold (Abreast own d d')
        (Phase.keepCopy c.sourceFile (c.settings.text? .backupRoot)) := by
      rw [hc.source, hc.settings]
      exact Filing.twofold_keepCopy hm hsource.1 hcopy.1 hcopy.2
    refine Twofold.tryCatch (hkeep.onState.bind fun _ => twofold_pure _) (fun e => ?_) r r' h
    split
    · exact twofold_pure _
    · exact twofold_throw _
  · exact twofold_pure _ r r' h

theorem Phase.twofold_output (hm : Meanwhile others own d d') (hc : Migration.Fits s file page c)
    (hnames : ∀ p ∈ Migration.paths s d.cwd file, Usable others d p ∧ d.placeFor p ∈ own)
    (input : Option Datum) :
    Twofold (OnState (Abreast own d d')) (Phase.output.execute c input) := by
  refine Job.twofold rfl (Phase.twofold_secureSource hm hc hnames input) fun input =>
    Task.twofold (fun p hp input => ?_) input
  obtain rfl := List.mem_singleton.mp hp
  have htarget := hnames _ (Migration.target_mem_paths s d.cwd file)
  refine Stage.twofold_write hm ?_ ?_ htarget.1 htarget.2 input
  · rw [hc.target, Migration.toString_targetPath]
  · rw [hc.target]
    rfl

end Output

/-! ## The file -/

namespace Migration

variable {others : List Route} {d d' : Disk} {s : Settings} {file runId : String}

theorem twofold_filePipeline {own : List Route} (hm : Meanwhile others own d d') {c : Context}
    {page : Option Snapshot} (hc : Fits s file page c)
    (hnames : ∀ p ∈ paths s d.cwd file, Usable others d p ∧ d.placeFor p ∈ own) (source : String) :
    Twofold (OnState (Abreast own d d')) (filePipeline.execute c (some (.text source))) := by
  refine (twofold_publish c _).bind fun _ => ?_
  refine (Phase.twofold_collector (fun e e' h => (h.added hm).cwd) source).bind_ok fun o r t ho => ?_
  split
  · exact (twofold_publish c _).bind fun _ => twofold_pure _
  · rename_i hok
    rw [Bool.not_eq_true] at hok
    obtain ⟨-, hrefused | ⟨o', conversion, ho', -, -, hdata⟩⟩ := Phase.collector_leaves ho
    · rw [hrefused o rfl] at hok
      cases hok
    cases ho'
    rw [Outcome.handOn_of_text hok hdata]
    refine (Phase.twofold_output hm hc hnames _).bind fun o => ?_
    split
    · exact (twofold_publish c _).bind fun _ => twofold_pure _
    · exact (twofold_publish c _).bind fun _ => twofold_pure _

/-- What begins a migration looks at the source and the captured page. -/
theorem concurs_contextOf (hpage : ∃ y, Leaves (loadSnapshot s) d y d ∧ Leaves (loadSnapshot s) d' y d') :
    Concurs (fun e e' => e = d ∧ e' = d') (contextOf file s runId) d d' := by
  have hsame : (fun e e' => e = d ∧ e' = d') d d' := ⟨rfl, rfl⟩
  refine Twofold.bind (twofold_ofExcept _) (fun source => ?_) d d' hsame
  refine Twofold.bind (twofold_ofExcept _) fun target => ?_
  rintro e e' ⟨rfl, rfl⟩
  obtain ⟨y, hy, hy'⟩ := hpage
  exact Concurs.bind ⟨y, e, e', hy, hy', hsame⟩ fun page => twofold_pure _

theorem twofold_readSource {R : Disk → Disk → Prop} {path : String}
    (hsee : ∀ {e e'}, R e e' → e'.see path = e.see path) : Twofold R (readSource path s) := by
  refine ((Filing.sees_size path).twofold hsee).bind fun size => (twofold_ofExcept _).bind fun refuses => ?_
  split
  · exact (twofold_throw _).bind fun _ => Filing.twofold_readText hsee
  · exact Filing.twofold_readText hsee

/-- The migration of a file comes to the same on both disks, and adds the same to them. -/
theorem migrateFile_concurs (runId : String) (hm : Meanwhile others (places s d file) d d')
    (hnames : ∀ p ∈ paths s d.cwd file, Usable others d p)
    (hpage : ∃ y, Leaves (loadSnapshot s) d y d ∧ Leaves (loadSnapshot s) d' y d')
    {r r' : Running Disk} (hr : r.state = d) (hr' : r'.state = d') :
    Concurs (OnState (Abreast (places s d file) d d')) (migrateFile file s runId) r r' := by
  subst hr hr'
  have habreast : ∀ {t t' : Running Disk}, OnState (fun e e' => e = r.state ∧ e' = r'.state) t t' →
      OnState (Abreast (places s r.state file) r.state r'.state) t t' := by
    rintro t t' ⟨ht, ht'⟩
    unfold OnState
    rw [ht, ht']
    exact hm.abreast
  have hown : ∀ p ∈ paths s r.state.cwd file,
      Usable others r.state p ∧ r.state.placeFor p ∈ places s r.state file :=
    fun p hp => ⟨hnames p hp, List.mem_map_of_mem hp⟩
  refine Concurs.bind_ok (Concurs.mono (Concurs.tryCatch (Concurs.onState (Concurs.bind_ok
    (concurs_contextOf hpage) fun c t hcontext => ?_)) fun e => ?_) habreast) fun begun t hbegun => ?_
  · obtain ⟨-, page, -, hc⟩ := contextOf_leaves_ok hcontext
    refine (twofold_readSource fun {e e'} h => ?_).bind fun source => twofold_pure _
    rw [h.1, h.2, hc.source]
    exact hm.abreast.see hm (hnames _ (source_mem_paths s r.state.cwd file))
  · split
    · exact twofold_pure _
    · exact twofold_throw _
  · cases begun with
    | error e => exact twofold_pure _
    | ok begun =>
      obtain ⟨c, source⟩ := begun
      rcases hbegun.tryCatch with ⟨a, hread, ha⟩ | ⟨e, u, -, hfail⟩
      · cases ha
        obtain ⟨c', u, hcontext, hread⟩ := hread.onState.bind_ok
        obtain ⟨-, page, -, hc⟩ := contextOf_leaves_ok hcontext
        obtain ⟨source', v, -, hend⟩ := hread.bind_ok
        cases hend.pure.1
        exact twofold_filePipeline hm hc hown source
      · split at hfail
        · cases hfail.pure.1
        · cases hfail.throw.1

end Migration

end TestMigration
