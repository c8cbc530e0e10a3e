import TestMigration.Proofs.Backups

/-! Files whose migration fails. Whether it is turned down at the start, by a pass, while its source
is being secured or at the last write, nothing that was on the disk is lost, and the one file that
may be new is a copy of its source. A dry run changes nothing whatever it comes to. -/

namespace TestMigration

open Disk (Gains)

section Dry

variable {c : Context} {r r' : Running Disk} {input : Option Datum}

theorem Stage.write_leaves_dry {name : String} {y : Except Failure (Outcome Datum)}
    (hdry : c.settings.flag .dryRun = true) (h : Leaves ((Stage.write name).execute c input) r y r') :
    r'.state = r.state := by
  unfold Stage.write at h
  dsimp only at h
  rw [hdry, if_pos rfl] at h
  obtain ⟨-, rfl⟩ := h.pure
  rfl

theorem Phase.secureSource_leaves_dry {name : String}
    {y : Except Failure (Except (Outcome Datum) (Option Datum))}
    (hdry : c.settings.flag .dryRun = true) (h : Leaves (Phase.secureSource name c input) r y r') :
    r'.state = r.state := by
  have hopen := h.get_bind
  split at hopen
  · rename_i hneeds
    simp [Phase.needsCopy, hdry] at hneeds
  · obtain ⟨-, rfl⟩ := hopen.pure
    rfl

variable {x : Except Failure (Outcome Datum)}

theorem Phase.output_leaves_dry (hdry : c.settings.flag .dryRun = true)
    (h : Leaves (Phase.output.execute c input) r x r') : r'.state = r.state := by
  obtain ⟨y, u, hprepare, hrest⟩ := Job.execute_leaves rfl h
  have hu := Phase.secureSource_leaves_dry hdry hprepare
  rcases hrest with ⟨hr, -⟩ | ⟨input', v, z, v', -, hv, htask, hr, -⟩
  · rw [hr, hu]
  obtain ⟨w, y, w', hw, hwrite, hrest⟩ := Task.executeFrom_leaves htask
  have hkept := Stage.write_leaves_dry hdry hwrite
  rcases hrest with ⟨-, -, -, -, hv'⟩ | ⟨o, q, -, -, hq, hrest⟩
  · rw [hr, hv', hkept, hw, hv, hu]
  · obtain ⟨-, hv'⟩ := Task.executeFrom_nil hrest
    rw [hr, hv', hq, hkept, hw, hv, hu]

namespace Migration

theorem filePipeline_leaves_dry {source : String} (hdry : c.settings.flag .dryRun = true)
    (h : Leaves (filePipeline.execute c (some (.text source))) r x r') : r'.state = r.state := by
  obtain ⟨t, ht, hjobs⟩ := h.publish_bind
  obtain ⟨y, u, hcollector, hrest⟩ := Pipeline.executeFrom_leaves hjobs
  obtain ⟨hu, hconverted⟩ := Phase.collector_leaves hcollector
  rcases hrest with ⟨-, hr, -⟩ | ⟨o, rfl, hok, hrest⟩
  · rw [hr, hu, ht]
  rcases hconverted with hrefused | ⟨o', conversion, ho', -, -, hdata⟩
  · rw [hrefused o rfl] at hok
    cases hok
  cases ho'
  rw [Outcome.handOn_of_text hok hdata] at hrest
  obtain ⟨y, v, houtput, hrest⟩ := Pipeline.executeFrom_leaves hrest
  have hv := Phase.output_leaves_dry hdry houtput
  rcases hrest with ⟨-, hr, -⟩ | ⟨o', -, -, hrest⟩
  · rw [hr, hv, hu, ht]
  · rw [(Pipeline.executeFrom_nil hrest).2, hv, hu, ht]

/-- Files are read in a dry run, and that is all. -/
theorem migrateFile_leaves_dry {s : Settings} {file runId : String} (hdry : s.flag .dryRun = true)
    (h : Leaves (migrateFile file s runId) r x r') : r'.state = r.state := by
  rcases migrateFile_begins h with ⟨-, hr⟩ | ⟨c, page, source, hc, -, -, t, ht, hrun⟩
  · exact hr
  · rw [filePipeline_leaves_dry (by rwa [hc.settings]) hrun, ht]

end Migration

end Dry

namespace Migration

variable {s : Settings} {file runId : String} {d : Disk} {x : Except Failure (Outcome Datum)}
  {r : Running Disk}

/-- A directory with a source and an empty file. -/
def besideEmpty : Disk where
  items := [(["w"], .directory), (["w", "a.js"], .file "a.first();\n".toUTF8),
    (["w", "f"], .file "".toUTF8)]
  cwd := ["w"]

/-- Targets that are sources, by way of what would have to be a directory. -/
def throughFile : Settings := Settings.standard.put .targetRoot (.text "f/..")

end Migration

end TestMigration
