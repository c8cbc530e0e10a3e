import TestMigration.Proofs.Batch
import TestMigration.Proofs.FileConversion
import TestMigration.Proofs.Refusal

/-! Dry runs. With the flag on, no entry point changes anything on the disk, whatever it comes to.
And a dry run comes to what the real one would have come to: both go the same way up to the last
step, so where the target of a file can be written, both name it and hold the same code. -/

namespace TestMigration

/-! ## The answer of a run that succeeds -/

/-- The outcome names the target and holds the code. -/
structure Outcome.TellsOf (o : Outcome Datum) (target code : String) : Prop where
  data : o.data = some (.text target)
  target : o.metadata.get? "target_file" = some (.text target)
  code : o.metadata.get? "generated_code" = some (.text code)

theorem Outcome.TellsOf.endsAs {o o' : Outcome Datum} {target code : String}
    (h : o.TellsOf target code) (hends : o.EndsAs o') : o'.TellsOf target code :=
  ⟨hends.data.trans h.data, by rw [hends.metadata, h.target], by rw [hends.metadata, h.code]⟩

section Answers

variable {c : Context} {r r' : Running Disk} {o : Outcome Datum} {code : String}

theorem Stage.write_answers {name : String}
    (h : Leaves ((Stage.write name).execute c (some (.text code))) r (.ok o) r')
    (hok : o.isError = false) : o.TellsOf c.targetFile code := by
  unfold Stage.write at h
  dsimp only [Datum.text] at h
  split at h
  · cases h.pure.1
    exact ⟨rfl, rfl, rfl⟩
  · rcases h.tryCatch with ⟨a, hdone, ha⟩ | ⟨e, t, -, hfail⟩
    · cases ha
      obtain ⟨⟨⟩, t, -, hwrite⟩ := hdone.bind_ok
      obtain ⟨⟨⟩, u, -, hend⟩ := hwrite.bind_ok
      cases hend.pure.1
      exact ⟨rfl, rfl, rfl⟩
    · split at hfail
      · cases hfail.pure.1
        cases hok
      · cases hfail.throw.1

/-- The source is secured or not, and what is to be written stays what it was. -/
theorem Phase.secureSource_answers {name : String} {input : Option Datum}
    {y : Except Failure (Except (Outcome Datum) (Option Datum))}
    (h : Leaves (Phase.secureSource name c input) r y r') :
    (∃ e, y = .error e) ∨ (∃ e, y = .ok (.error e) ∧ e.isError = true) ∨ y = .ok (.ok input) := by
  have hopen := h.get_bind
  split at hopen
  · rcases hopen.attempt with ⟨⟨⟩, -, rfl⟩ | ⟨e, t, -, hfail⟩
    · exact .inr (.inr rfl)
    · split at hfail
      · exact .inr (.inl ⟨_, hfail.pure.1, rfl⟩)
      · exact .inl ⟨_, hfail.throw.1⟩
  · exact .inr (.inr hopen.pure.1)

theorem Phase.output_answers (h : Leaves (Phase.output.execute c (some (.text code))) r (.ok o) r')
    (hok : o.isError = false) : o.TellsOf c.targetFile code := by
  obtain ⟨y, u, hprepare, hrest⟩ := Job.execute_leaves rfl h
  have hsecured := Phase.secureSource_answers hprepare
  rcases hrest with ⟨-, ⟨e, he⟩ | ⟨o', rfl, ho'⟩⟩ | ⟨input, v, z, v', rfl, -, htask, -, hanswer⟩
  · cases he
  · cases ho'
    rcases hsecured with ⟨e, he⟩ | ⟨e, he, herror⟩ | he
    · cases he
    · cases he
      rw [herror] at hok
      cases hok
    · cases he
  obtain rfl : input = some (.text code) := by
    rcases hsecured with ⟨e, he⟩ | ⟨e, he, -⟩ | he
    · cases he
    · cases he
    · cases he
      rfl
  rcases hanswer with ⟨-, hrefused⟩ | ⟨whole, o', rfl, hwhole, ho', hends⟩
  · rw [hrefused o rfl] at hok
    cases hok
  cases ho'
  obtain ⟨w, y, w', -, hwrite, hrest⟩ := Task.executeFrom_leaves htask
  rcases hrest with ⟨-, o', ho', hfailed, -⟩ | ⟨o', q, rfl, hdone, -, hrest⟩
  · cases ho'
    rw [hwhole] at hfailed
    cases hfailed
  · cases (Task.executeFrom_nil hrest).1
    exact ((Stage.write_answers hwrite hdone).endsAs (Outcome.endsAs_ofParts _ [] o')).endsAs hends

namespace Migration

theorem filePipeline_answers {source : String}
    (h : Leaves (filePipeline.execute c (some (.text source))) r (.ok o) r')
    (hok : o.isError = false) :
    ∃ conversion, Conversion.ofSource (optionsOf c.settings r.state.cwd c.snapshot?) source
        (some c.sourceFile) = .ok conversion ∧ o.TellsOf c.targetFile conversion.code := by
  obtain ⟨t, ht, hjobs⟩ := h.publish_bind
  obtain ⟨y, u, hcollector, hrest⟩ := Pipeline.executeFrom_leaves hjobs
  obtain ⟨-, hconverted⟩ := Phase.collector_leaves hcollector
  rcases hrest with ⟨-, -, hrefused⟩ | ⟨collected, rfl, hcollected, hrest⟩
  · rw [hrefused o rfl] at hok
    cases hok
  rcases hconverted with hrefused | ⟨o', conversion, ho', -, hconversion, hdata⟩
  · rw [hrefused collected rfl] at hcollected
    cases hcollected
  cases ho'
  rw [Outcome.handOn_of_text hcollected hdata] at hrest
  obtain ⟨y, v, houtput, hrest⟩ := Pipeline.executeFrom_leaves hrest
  rcases hrest with ⟨-, -, hrefused⟩ | ⟨written, rfl, hwritten, hrest⟩
  · rw [hrefused o rfl] at hok
    cases hok
  cases (Pipeline.executeFrom_nil hrest).1
  rw [ht] at hconversion
  exact ⟨conversion, hconversion, (Phase.output_answers houtput hwritten).endsAs
    (Outcome.endsAs_ofParts _ ([] ++ [collected]) written)⟩

end Migration

end Answers

namespace Migration

variable {s : Settings} {file runId : String} {d : Disk}

theorem textOfBytes_ok {bytes : ByteArray} {text : String} (h : textOfBytes bytes = .ok text) :
    ∃ held, String.fromUTF8? bytes = some held ∧ text = Blank.asRead held := by
  cases hheld : String.fromUTF8? bytes with
  | some held =>
    rw [textOfBytes_of_valid hheld] at h
    cases h
    exact ⟨held, rfl, rfl⟩
  | none =>
    unfold textOfBytes at h
    rw [hheld] at h
    cases h

theorem readSource_holds {path text : String} {d' : Disk}
    (h : Leaves (readSource path s) d (.ok text) d') :
    ∃ place bytes held, d.find path = .ok place ∧ d.get? place = some (.file bytes) ∧
      String.fromUTF8? bytes = some held ∧ s.refusesSize bytes.size = .ok false ∧
      text = Blank.asRead held := by
  obtain ⟨-, hread⟩ := readSource_leaves_ok h
  obtain ⟨-, place, bytes, hplace, hitem, hdecodes⟩ := Filing.readText_leaves_ok hread
  obtain ⟨held, hheld, rfl⟩ := textOfBytes_ok hdecodes
  refine ⟨place, bytes, held, hplace, hitem, hheld, ?_, rfl⟩
  have hcount : Leaves (Filing.size path) d (.ok bytes.size) d := by
    unfold Filing.size Leaves
    rw [(Filing.find_of_ok hplace "stat").of_bind_ok, (Leaves.of_get d).of_bind_ok, hitem]
    rfl
  obtain ⟨size, t, hsize, hrest⟩ := h.bind_ok
  obtain ⟨hsame, rfl⟩ := hsize.unique hcount
  cases hsame
  obtain ⟨refuses, u, hlimit, hrest⟩ := hrest.bind_ok
  cases refuses with
  | false => exact hlimit.ofExcept.1.symm
  | true =>
    obtain ⟨⟨⟩, v, hthrow, -⟩ := hrest.bind_ok
    cases hthrow.throw.1

theorem contextOf_named {c : Context} {d' : Disk} (h : Leaves (contextOf file s runId) d (.ok c) d') :
    ∃ source target, PathName.ofSource file = .ok source ∧ targetOf source s = .ok target := by
  obtain ⟨source, t, hsource, hrest⟩ := h.bind_ok
  obtain ⟨target, u, htarget, -⟩ := hrest.bind_ok
  exact ⟨source, target, hsource.ofExcept.1.symm, htarget.ofExcept.1.symm⟩

/-- A file whose migration succeeds could be read, its text was converted, and the outcome tells of
the code. -/
structure Converted (s : Settings) (file : String) (d : Disk) (o : Outcome Datum) (text : String)
    (page : Option Snapshot) (conversion : Conversion) : Prop where
  readable : Readable s file d text
  loads : Leaves (loadSnapshot s) d (.ok page) d
  converts : Conversion.ofSource (optionsOf s d.cwd page) (Blank.asRead text)
    (some (sourceName file)) = .ok conversion
  tells : o.TellsOf (targetName s file) conversion.code

theorem migrateFile_answers {o : Outcome Datum} {r r' : Running Disk}
    (h : Leaves (migrateFile file s runId) r (.ok o) r') (hok : o.isError = false) :
    ∃ text page conversion, Converted s file r.state o text page conversion := by
  rcases h.bind with ⟨begun, t, hbegin, hrest⟩ | ⟨e, -, he⟩
  · rcases hbegin.tryCatch with ⟨a, hread, ha⟩ | ⟨e, u, hread, hfail⟩
    · cases ha
      rcases hread.onState.bind with ⟨c, d, hcontext, hread⟩ | ⟨e, -, he⟩
      · have hnamed := contextOf_named hcontext
        obtain ⟨rfl, page, hloads, hc⟩ := contextOf_leaves_ok hcontext
        rcases hread.bind with ⟨source, d, hsource, hread⟩ | ⟨e, -, he⟩
        · obtain ⟨place, bytes, held, hplace, hitem, hheld, hsize, rfl⟩ := readSource_holds hsource
          obtain ⟨rfl, -⟩ := readSource_leaves_ok hsource
          obtain ⟨hbegun, ht⟩ := hread.pure
          cases hbegun
          obtain ⟨conversion, hconversion, htells⟩ := filePipeline_answers hrest hok
          rw [ht, hc.settings, hc.page, hc.source] at hconversion
          rw [hc.source] at hplace
          rw [hc.target] at htells
          exact ⟨held, page, conversion,
            ⟨hnamed, place, bytes, hplace, hitem, hheld, hsize⟩, hloads, hconversion, htells⟩
        · cases he
      · cases he
    · split at hfail
      · cases hfail.pure.1
        cases hrest.pure.1
        cases hok
      · cases hfail.throw.1
  · cases he

/-! ## The disk -/

section Disk

variable {r r' : Running Disk}

theorem Migrates.chain_dry (hdry : s.flag .dryRun = true) {files : List String}
    (h : Chain (Migrates s runId) r files r') : r'.state = r.state := by
  refine h.keeps (P := fun t => t.state = r.state) (fun file _ t t' hstep ht => ?_) rfl
  obtain ⟨x, hx⟩ := hstep
  rw [migrateFile_leaves_dry hdry hx, ht]

theorem migrateDirectory_leaves_dry (hdry : s.flag .dryRun = true) {directory : String}
    {x : Except Failure (Outcome Value)} (h : Leaves (migrateDirectory directory s runId) r x r') :
    r'.state = r.state := by
  unfold migrateDirectory at h
  cases hsource : PathName.ofSource directory with
  | error e =>
    rw [hsource] at h
    obtain ⟨-, rfl⟩ := h.pure
    rfl
  | ok source =>
    rw [hsource] at h
    have hopen := h.get_bind
    split at hopen
    · obtain ⟨-, rfl⟩ := hopen.pure
      rfl
    rcases hopen.onState_bind with ⟨files, t, hfiles, hrest⟩ | ⟨e, t, hfiles, -, rfl⟩
    · have ht := reads_below source s _ _ _ hfiles
      split at hrest
      · obtain ⟨-, rfl⟩ := hrest.pure
        exact ht.symm
      · obtain ⟨done, -, hchain⟩ := migrateFound_chain hrest
        exact (Migrates.chain_dry hdry hchain).trans ht.symm
    · exact (reads_below source s _ _ _ hfiles).symm

end Disk

/-! ## The flag -/

/-- The flag is looked at when the source is secured and when the target is written, and nowhere
before. -/
theorem comesTo_dry {o : Outcome Datum} {text : String} {page : Option Snapshot}
    {conversion : Conversion} {on : Value} (hon : on.isTruthy = true) (runId : String)
    (h : Converted s file d o text page conversion) :
    ∃ o', ComesTo (migrateFile file (s.put .dryRun on) runId) d o' ∧
      o'.TellsOf (targetName s file) conversion.code := by
  have hdry : (s.put .dryRun on).flag .dryRun = true := hon
  have hreadable : Readable (s.put .dryRun on) file d text := ⟨h.readable.named, h.readable.holds⟩
  obtain ⟨c, hc, hmigrate⟩ := migrateFile_of_page runId hreadable h.loads
  obtain ⟨o', findings, d', htells, hok, hcode⟩ := filePipeline_tells hc (.inl hdry)
    (by rw [hc.settings, hc.page, hc.source]; exact h.converts)
  have hcomes := comesTo_of_tells (hmigrate htells) hok
  obtain ⟨events, hrun, -⟩ := (hmigrate htells).run_eq
  obtain ⟨text', page', conversion', h'⟩ := migrateFile_answers (leaves_of_run hrun) hok
  exact ⟨o', hcomes, h'.tells.data, h'.tells.target, hcode⟩

/-- With the flag on, the migration of a list, of a file and of a directory leave the disk as it
was, failures and all; and a file whose migration succeeds with the flag off succeeds with it on,
with the same target and the same code. -/
theorem dry_run (s : Settings) (runId : String) (d : Disk) :
    (s.flag .dryRun = true →
      (∀ files, ((migrate files s runId).run d).2.state = d) ∧
      (∀ file, ((migrateFile file s runId).run d).2.state = d) ∧
      ∀ directory, ((migrateDirectory directory s runId).run d).2.state = d) ∧
    (s.flag .dryRun = false → ∀ on : Value, on.isTruthy = true → ∀ file o,
      ComesTo (migrateFile file s runId) d o → ∃ o' target code,
        ComesTo (migrateFile file (s.put .dryRun on) runId) d o' ∧
          o.TellsOf target code ∧ o'.TellsOf target code) := by
  refine ⟨fun hdry => ⟨fun files => ?_, fun file => ?_, fun directory => ?_⟩, ?_⟩
  · obtain ⟨done, -, hchain⟩ := migrateFrom_chain (leaves_run (migrate files s runId) d)
    exact Migrates.chain_dry hdry hchain
  · exact migrateFile_leaves_dry hdry (leaves_run _ d)
  · exact migrateDirectory_leaves_dry hdry (leaves_run _ d)
  · intro _ on hon file o ⟨hrun, hok⟩
    have hleaves := leaves_run (migrateFile file s runId) d
    rw [hrun] at hleaves
    obtain ⟨text, page, conversion, h⟩ := migrateFile_answers hleaves hok
    obtain ⟨o', hcomes, htells⟩ := comesTo_dry hon runId h
    exact ⟨o', _, _, hcomes, h.tells, htells⟩

/-- A source that can be migrated, and one that is not there. The dry run fails for the second and
changes nothing; of the first it tells what the real run tells, and the real run changes it. -/
theorem dry_run_of_two :
    let dry := Settings.standard.put .dryRun (.bool true)
    let d := holding "a.first();\n"
    verdict ((migrate ["a.js", "b.js"] dry "run").run d).1 = some (false, true) ∧
      ((migrate ["a.js", "b.js"] dry "run").run d).2.state = d ∧
      holdsAt ((migrateFile "a.js" Settings.standard "run").run d).2.state ["w", "a.js"] "a;\n" ∧
      ∃ o o' target, ComesTo (migrateFile "a.js" Settings.standard "run") d o ∧
        ComesTo (migrateFile "a.js" dry "run") d o' ∧ o.TellsOf target "a;\n" ∧
        o'.TellsOf target "a;\n" := by
  intro dry d
  obtain ⟨o, hcomes, hcode⟩ : ∃ o, ComesTo (migrateFile "a.js" Settings.standard "run") d o ∧
      (o.metadata.get? "generated_code").map Value.display = some "a;\n" :=
    exists_comesTo (by decide +kernel)
  obtain ⟨o', target, code, hdry, htells, htells'⟩ :=
    (dry_run Settings.standard "run" d).2 (by decide) (.bool true) rfl "a.js" o hcomes
  rw [htells.code] at hcode
  cases hcode
  refine ⟨by decide +kernel, ((dry_run dry "run" d).1 (by decide)).1 _, by decide +kernel, ?_⟩
  exact ⟨o, o', target, hcomes, hdry, htells, htells'⟩

end Migration

end TestMigration
