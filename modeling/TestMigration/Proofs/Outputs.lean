import TestMigration.Proofs.Batch

/-! What a run over many files has made when every file was migrated: for each source its target,
and in it the conversion of that source. Targets are named by the source's file name, so this
takes that no two sources are given one target. -/

namespace TestMigration.Migration

variable {s : Settings} {runId : String}

/-! ## One file -/

/-- A source was converted, and its target holds the code; every other file is as before. -/
structure Makes (s : Settings) (runId : String) (made : String × Conversion) (r r' : Running Disk) :
    Prop where
  runs : ∃ o, Leaves (migrateFile made.1 s runId) r (.ok o) r' ∧ o.isError = false ∧
    o.data = some (.text (targetName s made.1)) ∧
    o.metadata.get? "generated_code" = some (.text made.2.code)
  converts : ∃ text page, Leaves (Filing.readText (sourceName made.1)) r.state (.ok text) r.state ∧
    Leaves (loadSnapshot s) r.state (.ok page) r.state ∧
    Conversion.ofSource (optionsOf s r.state.cwd page) text (some (sourceName made.1)) = .ok made.2
  leads : r'.state.find (targetName s made.1) = .ok (targetPlace r.state.cwd s made.1)
  held : r'.state.get? (targetPlace r.state.cwd s made.1) = some (.file made.2.code.toUTF8)
  cwd : r'.state.cwd = r.state.cwd
  keeps : ∀ {p item}, r.state.get? p = some item →
    item = .directory ∨ p ≠ targetPlace r.state.cwd s made.1 → r'.state.get? p = some item

theorem makes_of_ok {file : String} {o : Outcome Datum} {r r' : Running Disk}
    (hdry : s.flag .dryRun = false) (hcwd : ".." ∉ r.state.cwd)
    (h : Leaves (migrateFile file s runId) r (.ok o) r') (hok : o.isError = false) :
    ∃ c, Makes s runId (file, c) r r' := by
  have hturn := migrateFile_leaves hdry hcwd h
  generalize hd : r'.state = d' at hturn
  cases hturn with
  | refused hrefused =>
    rw [hrefused o rfl] at hok
    cases hok
  | @written _ text page c secured hreads hloads hconverts hgains _ hleads hno _ hdata hcode =>
    have hroot : targetPlace r.state.cwd s file ≠ [] := by
      intro he
      rw [he] at hno
      exact hno rfl
    have hkeeps : ∀ {p item}, secured.get? p = some item →
        item = .directory ∨ p ≠ targetPlace r.state.cwd s file →
        r'.state.get? p = some item := by
      intro p item hp hor
      have hne : p ≠ targetPlace r.state.cwd s file := by
        rcases hor with rfl | hne
        · intro he
          rw [he] at hp
          exact hno hp
        · exact hne
      rw [hd, Disk.get?_put_of_ne hroot hne, hp]
    refine ⟨c, ⟨o, h, hok, hdata, hcode⟩, ⟨text, page, hreads, hloads, hconverts⟩, ?_, ?_, ?_, ?_⟩
    · refine Disk.find_mono (by rw [hd]; rfl) ?_ hleads
      intro p hp
      exact hkeeps hp (.inl rfl)
    · rw [hd, Disk.get?_put_self hroot]
    · rw [hd]
      exact hgains.cwd
    · intro p item hp hor
      exact hkeeps (hgains.stays hp) hor

/-! ## The chain -/

theorem Makes.chain_cwd {made : List (String × Conversion)} {r r' : Running Disk}
    (h : Chain (Makes s runId) r made r') : r'.state.cwd = r.state.cwd :=
  h.keeps (P := fun t => t.state.cwd = r.state.cwd) (fun _ _ _ _ hstep ht => hstep.cwd.trans ht) rfl

/-- Directories stay, and so does every file that is at none of the targets. -/
theorem Makes.chain_keeps {made : List (String × Conversion)} {r r' : Running Disk}
    (h : Chain (Makes s runId) r made r') {p : Route} {item : Item} (hp : r.state.get? p = some item)
    (hor : item = .directory ∨ ∀ m ∈ made, p ≠ targetPlace r.state.cwd s m.1) :
    r'.state.get? p = some item := by
  have hall := h.keeps (P := fun t => t.state.cwd = r.state.cwd ∧ t.state.get? p = some item) ?_ ⟨rfl, hp⟩
  · exact hall.2
  intro m hm t t' hstep ht
  refine ⟨hstep.cwd.trans ht.1, hstep.keeps ht.2 ?_⟩
  rw [ht.1]
  exact hor.imp_right fun hne => hne m hm

/-- The run over the files of a chain ends where the chain ends. -/
theorem Makes.chain_run {made : List (String × Conversion)} {r r' : Running Disk}
    (h : Chain (Makes s runId) r made r') (p : Progress) :
    ∃ x, Leaves (migrateFrom s runId (made.map (·.1)) p) r x r' := by
  induction h generalizing p with
  | nil r => exact ⟨.ok p.conclude, rfl⟩
  | @cons m rest r t r' first _ ih =>
    obtain ⟨o, hrun, hok, -⟩ := first.runs
    obtain ⟨x, hx⟩ := ih (p.succeed o)
    refine ⟨x, ?_⟩
    unfold Leaves at hrun hx ⊢
    rw [List.map_cons, migrateFrom]
    change EStateM.bind (migrateFile m.1 s runId) _ r = _
    unfold EStateM.bind
    rw [hrun]
    simp only [hok, Bool.not_false, if_true]
    exact hx

/-! ## The answer -/

/-- The run has an outcome that is no error and names no file that failed. -/
structure Succeeds (o : Outcome Value) : Prop where
  isError : o.isError = false
  failed : ((o.metadata.get? "failed_files").map Value.isTruthy).getD false = false

/-- The outcome names these targets, and this code for each of them. -/
structure Reports (written : List String) (generated : Entries) (o : Outcome Value) : Prop where
  data : o.data = some (.ofStrings written)
  generated : (o.metadata.get? "generated_code").getD (.record []) = .record generated

/-- The code of each target, in the order of first writing. -/
def generatedBy (s : Settings) (before : Entries) (made : List (String × Conversion)) : Entries :=
  made.foldl (fun es m => es.put (targetName s m.1) (.text m.2.code)) before

theorem conclude_reports {p : Progress} (h : Succeeds p.conclude) :
    p.failed = [] ∧ Reports p.written p.generated p.conclude := by
  have hfailed : p.failed = [] := by
    cases hf : p.failed with
    | nil => rfl
    | cons f rest =>
      have hbad := h.failed
      have hok := h.isError
      unfold Progress.conclude at hbad hok
      rw [hf] at hbad hok
      cases hw : p.written with
      | nil =>
        rw [hw] at hok
        cases hok
      | cons w written =>
        rw [hw] at hbad
        simp [Entries.get?, Progress.failedFiles, hf, Value.ofStrings, Value.isTruthy] at hbad
  refine ⟨hfailed, ?_, ?_⟩
  · unfold Progress.conclude
    simp [hfailed]
  · unfold Progress.conclude
    simp [hfailed, Entries.get?]

theorem failed_fail (p : Progress) (file : String) (error : Option Failure) :
    (p.fail file error).failed ≠ [] := by
  unfold Progress.fail
  dsimp only
  split
  · rename_i hany
    obtain ⟨f, hf, -⟩ := List.any_eq_true.mp hany
    simpa using List.ne_nil_of_mem hf
  · simp

/-- A run over a list that succeeds has made every target, and reports them all. -/
theorem migrateFrom_makes {files : List String} {p : Progress} {r r' : Running Disk}
    {o : Outcome Value} (hdry : s.flag .dryRun = false) (hcwd : ".." ∉ r.state.cwd)
    (h : Leaves (migrateFrom s runId files p) r (.ok o) r') (hs : Succeeds o) :
    p.failed = [] ∧ ∃ made, made.map (·.1) = files ∧ Chain (Makes s runId) r made r' ∧
      Reports (p.written ++ made.map fun m => targetName s m.1) (generatedBy s p.generated made) o := by
  induction files generalizing p r with
  | nil =>
    obtain ⟨ho, rfl⟩ := h.pure
    cases ho
    obtain ⟨hfailed, hreports⟩ := conclude_reports hs
    exact ⟨hfailed, [], rfl, .nil _, by simpa [generatedBy] using hreports⟩
  | cons file rest ih =>
    rcases h.bind with ⟨answer, t, hfile, hrest⟩ | ⟨e, -, he⟩
    · split at hrest
      · rename_i hok
        rw [Bool.not_eq_true'] at hok
        obtain ⟨c, hmakes⟩ := makes_of_ok hdry hcwd hfile hok
        have hcwd' : ".." ∉ t.state.cwd := by rwa [hmakes.cwd]
        obtain ⟨hfailed, made, hmade, hchain, hreports⟩ := ih hcwd' hrest
        obtain ⟨answer', hrun, -, hdata, hcode⟩ := hmakes.runs
        cases (hfile.unique hrun).1
        refine ⟨hfailed, (file, c) :: made, by rw [List.map_cons, hmade], .cons hmakes hchain, ?_⟩
        have hsucceed : (p.succeed answer).written = p.written ++ [targetName s file] ∧
            (p.succeed answer).generated = p.generated.put (targetName s file) (.text c.code) := by
          unfold Progress.succeed
          rw [hdata, hcode]
          exact ⟨rfl, rfl⟩
        rw [hsucceed.1, hsucceed.2] at hreports
        simpa [generatedBy] using hreports
      split at hrest
      · obtain ⟨ho, -⟩ := hrest.pure
        cases ho
        cases hs.isError
      · have hcwd' : ".." ∉ t.state.cwd := by rwa [(migrateFile_leaves hdry hcwd hfile).cwd]
        exact absurd (ih hcwd' hrest).1 (failed_fail p file _)
    · cases he

theorem conclude_tally_reports {t : Tally} (h : Succeeds t.conclude) :
    t.failed = [] ∧ Reports t.migrated t.generated t.conclude := by
  have hfailed : t.failed = [] := by
    cases hf : t.failed with
    | nil => rfl
    | cons file rest =>
      have hbad := h.failed
      unfold Tally.conclude at hbad
      simp [hf, Entries.get?, Outcome.warning, Value.ofStrings, Value.isTruthy] at hbad
  refine ⟨hfailed, ?_, ?_⟩
  · unfold Tally.conclude
    simp [hfailed, Outcome.success]
  · unfold Tally.conclude
    simp [hfailed, Outcome.success, Entries.get?]

/-- A run over what was found that succeeds has made every target, and reports them all. -/
theorem migrateFound_makes {files : List String} {t : Tally} {r r' : Running Disk}
    {o : Outcome Value} (hdry : s.flag .dryRun = false) (hcwd : ".." ∉ r.state.cwd)
    (h : Leaves (migrateFound s runId files t) r (.ok o) r') (hs : Succeeds o) :
    t.failed = [] ∧ ∃ made, made.map (·.1) = files ∧ Chain (Makes s runId) r made r' ∧
      Reports (t.migrated ++ made.map fun m => targetName s m.1) (generatedBy s t.generated made) o := by
  induction files generalizing t r with
  | nil =>
    obtain ⟨ho, rfl⟩ := h.pure
    cases ho
    obtain ⟨hfailed, hreports⟩ := conclude_tally_reports hs
    exact ⟨hfailed, [], rfl, .nil _, by simpa [generatedBy] using hreports⟩
  | cons file rest ih =>
    rcases h.bind with ⟨answer, u, hfile, hrest⟩ | ⟨e, -, he⟩
    · split at hrest
      · dsimp only at hrest
        split at hrest
        · obtain ⟨ho, -⟩ := hrest.pure
          cases ho
          cases hs.isError
        · have hcwd' : ".." ∉ u.state.cwd := by rwa [(migrateFile_leaves hdry hcwd hfile).cwd]
          have hnone := (ih hcwd' hrest).1
          simp at hnone
      · rename_i hok
        obtain ⟨c, hmakes⟩ := makes_of_ok hdry hcwd hfile (by simpa using hok)
        have hcwd' : ".." ∉ u.state.cwd := by rwa [hmakes.cwd]
        obtain ⟨answer', hrun, -, hdata, hcode⟩ := hmakes.runs
        cases (hfile.unique hrun).1
        dsimp only at hrest
        rw [hdata, hcode] at hrest
        obtain ⟨hfailed, made, hmade, hchain, hreports⟩ := ih hcwd' hrest
        refine ⟨hfailed, (file, c) :: made, by rw [List.map_cons, hmade], .cons hmakes hchain, ?_⟩
        simpa [generatedBy, Datum.text, Datum.display, Value.display] using hreports
    · cases he

theorem Runs.makes {d : Disk} {files : List String} {work : Work Disk (Outcome Value)}
    {r' : Running Disk} {o : Outcome Value} (run : Runs s runId d files work)
    (hdry : s.flag .dryRun = false) (hcwd : ".." ∉ d.cwd) (h : Leaves work ⟨[], d⟩ (.ok o) r')
    (hs : Succeeds o) :
    ∃ made, made.map (·.1) = files ∧ Chain (Makes s runId) ⟨[], d⟩ made r' ∧
      Reports (made.map fun m => targetName s m.1) (generatedBy s [] made) o := by
  cases run with
  | listed files =>
    obtain ⟨-, made, hmade, hchain, hreports⟩ := migrateFrom_makes hdry hcwd h hs
    exact ⟨made, hmade, hchain, by simpa using hreports⟩
  | found hsource hfiles =>
    rcases migrateDirectory_leaves hsource hfiles h with ⟨-, e, he⟩ | ⟨rfl, rfl, ho⟩ | h
    · cases he
      cases hs.isError
    · cases ho
      exact ⟨[], rfl, .nil _, ⟨rfl, rfl⟩⟩
    · obtain ⟨-, made, hmade, hchain, hreports⟩ := migrateFound_makes hdry hcwd h hs
      exact ⟨made, hmade, hchain, by simpa using hreports⟩

/-! ## Distinct targets -/

theorem put_fresh {es : Entries} {key : String} {v : Value} (h : key ∉ es.map (·.1)) :
    es.put key v = es ++ [(key, v)] := by
  unfold Entries.put
  rw [if_neg]
  intro hany
  obtain ⟨e, he, hkey⟩ := List.any_eq_true.mp hany
  exact h (List.mem_map.mpr ⟨e, he, by simpa using hkey⟩)

theorem generatedBy_of_nodup {made : List (String × Conversion)} {es : Entries}
    (h : (es.map (·.1) ++ made.map fun m => targetName s m.1).Nodup) :
    generatedBy s es made = es ++ made.map fun m => (targetName s m.1, .text m.2.code) := by
  induction made generalizing es with
  | nil => simp [generatedBy]
  | cons m made ih =>
    have hfresh : targetName s m.1 ∉ es.map (·.1) := by
      intro hmem
      exact (List.nodup_append.mp h).2.2 _ hmem _ List.mem_cons_self rfl
    have hstep : generatedBy s es (m :: made) =
        generatedBy s (es.put (targetName s m.1) (.text m.2.code)) made := rfl
    rw [hstep, put_fresh hfresh, ih]
    · simp
    · simpa using h

/-- After a run the target of a source holds the conversion of what the source held before it. The
captured page is read when the turn of the source comes, on the disk that the earlier files left. -/
structure Holds (s : Settings) (runId : String) (before after : Disk) (earlier : List String)
    (made : String × Conversion) : Prop where
  converts : ∃ text page turn, Filing.readText (sourceName made.1) before = .ok text before ∧
    turn = ((migrate earlier s runId).run before).2.state ∧ loadSnapshot s turn = .ok page turn ∧
    Conversion.ofSource (optionsOf s before.cwd page) text (some (sourceName made.1)) = .ok made.2
  held : after.item? (targetName s made.1) = some (.file made.2.code.toUTF8)

theorem Makes.holds {d : Disk} {r : Running Disk} {earlier later : List (String × Conversion)}
    {m : String × Conversion} (hcwd : ".." ∉ d.cwd)
    (h : Chain (Makes s runId) ⟨[], d⟩ (earlier ++ m :: later) r)
    (there : d.isFile (sourceName m.1))
    (hsource : ∀ e ∈ earlier, sourcePlace d.cwd m.1 ≠ targetPlace d.cwd s e.1)
    (htarget : ∀ l ∈ later, targetPlace d.cwd s m.1 ≠ targetPlace d.cwd s l.1) :
    Holds s runId d r.state (earlier.map (·.1)) m := by
  obtain ⟨t, t', hearlier, hm, hlater⟩ := h.split_cons
  have ht : t.state.cwd = d.cwd := Makes.chain_cwd hearlier
  have ht' : t'.state.cwd = d.cwd := hm.cwd.trans ht
  refine ⟨?_, ?_⟩
  · obtain ⟨text, page, hread, hloads, hconverts⟩ := hm.converts
    obtain ⟨-, p, bytes, hp, hitem, htext⟩ := Filing.readText_leaves_ok hread
    have hplace := Disk.find_place (by rwa [ht]) hp
    rw [ht] at hplace hconverts
    -- the source is what it was before the run
    obtain ⟨q, bytes', hq, hitem'⟩ := Disk.find_of_isFile there
    have hkept := Makes.chain_keeps hearlier hitem' (.inr fun e he => by
      rw [Disk.find_place hcwd hq]
      exact hsource e he)
    rw [Disk.find_place hcwd hq, ← hplace, hitem] at hkept
    cases hkept
    obtain ⟨x, hx⟩ := Makes.chain_run hearlier {}
    have hturn : (migrate (earlier.map (·.1)) s runId).run d = (x, t) := run_of_leaves hx
    exact ⟨text, page, t.state, Filing.readText_of_file hq hitem' htext, by rw [hturn], hloads,
      hconverts⟩
  · have hleads : r.state.find (targetName s m.1) = .ok (targetPlace d.cwd s m.1) := by
      refine Disk.find_mono (Makes.chain_cwd hlater) ?_ (by rw [hm.leads, ht])
      intro p hp
      exact Makes.chain_keeps hlater hp (.inl rfl)
    have hheld := hm.held
    rw [ht] at hheld
    have hfinal := Makes.chain_keeps hlater hheld (.inr fun l hl => by
      rw [ht']
      exact htarget l hl)
    unfold Disk.item?
    rw [hleads]
    simp only [Except.toOption, Option.bind_some]
    exact hfinal

/-- No output is lost. When every file of a run is migrated, no source lies where the target of
another is to go and no two sources are given one target, then the targets are named once each,
there is one code for each source, and each target holds the conversion of its own source. -/
theorem outputs_kept {d : Disk} {files : List String} {work : Work Disk (Outcome Value)}
    {o : Outcome Value} {r : Running Disk} (run : Runs s runId d files work)
    (ends : work.run d = (.ok o, r)) (succeeds : Succeeds o) (wet : s.flag .dryRun = false)
    (cwd : ".." ∉ d.cwd) (there : ∀ file ∈ files, d.isFile (sourceName file))
    (apart : ∀ a ∈ files, ∀ b ∈ files, a ≠ b → sourcePlace d.cwd a ≠ targetPlace d.cwd s b)
    (distinct : (files.map (targetPlace d.cwd s)).Nodup) :
    o.data = some (.ofStrings (files.map (targetName s))) ∧ (files.map (targetName s)).Nodup ∧
      ∃ made : List (String × Conversion), made.map (·.1) = files ∧
        (o.metadata.get? "generated_code").getD (.record []) =
          .record (made.map fun m => (targetName s m.1, .text m.2.code)) ∧
        ∀ earlier m later, made = earlier ++ m :: later →
          Holds s runId d r.state (earlier.map (·.1)) m := by
  obtain ⟨made, hmade, hchain, hreports⟩ := run.makes wet cwd (leaves_of_run ends) succeeds
  have hnames : (files.map (targetName s)).Nodup := by
    refine List.pairwise_map.mpr ((List.pairwise_map.mp distinct).imp ?_)
    intro a b hplaces hsame
    exact hplaces (congrArg (placeOf d.cwd) hsame)
  have hsame : (made.map fun m => targetName s m.1) = files.map (targetName s) := by
    rw [← hmade, List.map_map]
    rfl
  refine ⟨by rw [hreports.data, hsame], hnames, made, hmade, ?_, ?_⟩
  · rw [hreports.generated, generatedBy_of_nodup (by simpa [hsame] using hnames)]
    rfl
  · rintro earlier m later rfl
    rw [← hmade, List.map_map, List.map_append, List.map_cons] at distinct
    have hfresh := List.nodup_append.mp distinct
    have hmem : ∀ n ∈ earlier ++ m :: later, n.1 ∈ files := by
      intro n hn
      rw [← hmade]
      exact List.mem_map_of_mem hn
    have hm : m ∈ earlier ++ m :: later := by simp
    refine Makes.holds cwd hchain (there _ (hmem m hm)) ?_ ?_
    · intro e he
      refine apart _ (hmem m hm) _ (hmem e (by simp [he])) ?_
      intro heq
      refine hfresh.2.2 _ (List.mem_map_of_mem he) _ List.mem_cons_self ?_
      simp [heq]
    · intro l hl heq
      refine (List.nodup_cons.mp hfresh.2.1).1 ?_
      exact List.mem_map.mpr ⟨l, hl, heq.symm⟩

/-! ## Runs that can be looked at -/

/-- The part of an answer that says whether a run succeeded. -/
def verdict (x : Except Failure (Outcome Value)) : Option (Bool × Bool) :=
  x.toOption.map fun o =>
    (o.isError, ((o.metadata.get? "failed_files").map Value.isTruthy).getD false)

theorem exists_succeeds {work : Work Disk (Outcome Value)} {d : Disk}
    (h : verdict (work.run d).1 = some (false, false)) :
    ∃ o r, work.run d = (.ok o, r) ∧ Succeeds o := by
  cases hrun : work.run d with
  | mk x r =>
    rw [hrun] at h
    cases x with
    | error e => cases h
    | ok o =>
      have hboth := Prod.mk.inj (Option.some.inj h)
      exact ⟨o, r, rfl, hboth.1, hboth.2⟩

/-- Two directories with a file of the same name in each, and one file more. -/
def twins : Disk where
  items := [(["w"], .directory), (["w", "a"], .directory), (["w", "b"], .directory),
    (["w", "a", "x.js"], .file "a.first();\n".toUTF8), (["w", "b", "x.js"], .file "b.first();\n".toUTF8),
    (["w", "b", "y.js"], .file "c.first();\n".toUTF8)]
  cwd := ["w"]

/-- All targets go into one directory. -/
def intoOne : Settings := Settings.standard.put .targetRoot (.text "out")

theorem verdict_intoOne : verdict ((migrate ["a/x.js", "b/y.js"] intoOne "run").run twins).1 =
    some (false, false) := by
  decide +kernel

theorem outputs_kept_in_one_directory :
    ∃ o r, (migrate ["a/x.js", "b/y.js"] intoOne "run").run twins = (.ok o, r) ∧
      o.data = some (.ofStrings (["a/x.js", "b/y.js"].map (targetName intoOne))) ∧
      ∃ made : List (String × Conversion), made.map (·.1) = ["a/x.js", "b/y.js"] ∧
        ∀ earlier m later, made = earlier ++ m :: later →
          Holds intoOne "run" twins r.state (earlier.map (·.1)) m := by
  obtain ⟨o, r, hrun, hsucceeds⟩ := exists_succeeds verdict_intoOne
  obtain ⟨hdata, -, made, hmade, -, hholds⟩ := outputs_kept (.listed ["a/x.js", "b/y.js"]) hrun
    hsucceeds (by decide +kernel) (by decide +kernel) (by decide +kernel) (by decide +kernel)
    (by decide +kernel)
  exact ⟨o, r, hrun, hdata, made, hmade, hholds⟩

/-- Two sources of the same name are given one target, and only the second is left there. -/
theorem outputs_collide :
    ∃ o r, (migrate ["a/x.js", "b/x.js"] intoOne "run").run twins = (.ok o, r) ∧ Succeeds o ∧
      intoOne.flag .dryRun = false ∧
      (∀ a ∈ ["a/x.js", "b/x.js"], ∀ b ∈ ["a/x.js", "b/x.js"],
        a ≠ b → sourcePlace twins.cwd a ≠ sourcePlace twins.cwd b ∧
          sourcePlace twins.cwd a ≠ targetPlace twins.cwd intoOne b) ∧
      o.data = some (.ofStrings ["out/x.js", "out/x.js"]) ∧
      (Filing.readText "out/x.js").run' r.state = some "b;\n" ∧
      (Conversion.ofSource (optionsOf intoOne twins.cwd none) "a.first();\n"
        (some "a/x.js")).toOption.map (·.code) = some "a;\n" := by
  have hfacts : verdict ((migrate ["a/x.js", "b/x.js"] intoOne "run").run twins).1 =
        some (false, false) ∧
      (Filing.readText "out/x.js").run'
        ((migrate ["a/x.js", "b/x.js"] intoOne "run").run twins).2.state = some "b;\n" := by
    decide +kernel
  obtain ⟨o, r, hrun, hsucceeds⟩ := exists_succeeds hfacts.1
  obtain ⟨made, hmade, -, hreports⟩ := Runs.makes (.listed ["a/x.js", "b/x.js"]) (by decide +kernel)
    (by decide +kernel) (leaves_of_run hrun) hsucceeds
  have htargets : made.map (fun m => targetName intoOne m.1) = ["out/x.js", "out/x.js"] := by
    have hnames : ["a/x.js", "b/x.js"].map (targetName intoOne) = ["out/x.js", "out/x.js"] := by
      decide +kernel
    rw [← hnames, ← hmade, List.map_map]
    rfl
  have htext := hfacts.2
  rw [hrun] at htext
  refine ⟨o, r, hrun, hsucceeds, by decide +kernel, by decide +kernel, ?_, htext, by decide +kernel⟩
  rw [hreports.data, htargets]

end TestMigration.Migration
