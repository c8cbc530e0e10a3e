import TestMigration.Proofs.Reordering

/-! What a run over many files says of them. Every file is either among those that were migrated or
among those that failed, each in the order of the run, and the answer names the targets of the first
and the sources of the second. A run that stops at the first failure says what that file said. -/

namespace TestMigration.Migration

/-- The files that were migrated. -/
def successes (told : List (String × Outcome Datum)) : List (String × Outcome Datum) :=
  told.filter fun m => !m.2.isError

/-- The files that failed. -/
def failures (told : List (String × Outcome Datum)) : List (String × Outcome Datum) :=
  told.filter fun m => m.2.isError

/-- The target that a file answers with. -/
def shownTarget (m : String × Outcome Datum) : String := (m.2.data.map Datum.display).getD "None"

/-- What is said of a file that failed. -/
def failureLine (m : String × Outcome Datum) : String :=
  s!"Failed to migrate {m.1}: {m.2.failureText}"

/-- The warnings of the files that were migrated, and a line for each of the others. -/
def allWarnings (told : List (String × Outcome Datum)) : List String :=
  (successes told).flatMap (·.2.warnings) ++ (failures told).map failureLine

/-- An answer accounts for the files of a run. Each is migrated or failed, and the answer names those
that failed. It is an error only if some failed and none was migrated, and then it has the line of the
first and nothing to warn of; otherwise it names the targets of those that were migrated and warns of
all there is to warn of. -/
structure Accounts (told : List (String × Outcome Datum)) (o : Outcome Value) : Prop where
  divides : (told.map (·.1)).Perm ((successes told).map (·.1) ++ (failures told).map (·.1))
  apart : ∀ m ∈ successes told, ∀ m' ∈ failures told, m.1 ≠ m'.1
  failed : o.metadata.get? "failed_files" = some (.ofStrings ((failures told).map (·.1)))
  isError_iff : o.isError = true ↔ failures told ≠ [] ∧ successes told = []
  ended : o.isError = true → o.warnings = [] ∧
    o.error = (failures told).head?.map fun m => .of .runtime (failureLine m)
  data : o.isError = false → o.data = some (.ofStrings ((successes told).map shownTarget))
  warnings : o.isError = false → o.warnings = allWarnings told
  status : o.isError = false → o.status = if allWarnings told = [] then .success else .warning

variable {s : Settings} {runId : String} {d : Disk} {r r' : Running Disk} {o : Outcome Value}
  {told done : List (String × Outcome Datum)}

/-! ## The files of a run -/

theorem failures_eq_nil : failures told = [] ↔ ∀ m ∈ told, m.2.isError = false := by
  simp [failures]

theorem divided (told : List (String × Outcome Datum)) :
    (told.map (·.1)).Perm ((successes told).map (·.1) ++ (failures told).map (·.1)) := by
  have hperm : (successes told ++ failures told).Perm told := by
    have hboth := List.filter_append_perm (fun m : String × Outcome Datum => !m.2.isError) told
    simpa [successes, failures] using hboth
  rw [← List.map_append]
  exact (hperm.map (·.1)).symm

theorem apart_of_nodup (distinct : (told.map (·.1)).Nodup) :
    ∀ m ∈ successes told, ∀ m' ∈ failures told, m.1 ≠ m'.1 := by
  intro m hm m' hm'
  have hnodup := (divided told).nodup distinct
  exact (List.nodup_append.mp hnodup).2.2 _ (List.mem_map_of_mem hm) _ (List.mem_map_of_mem hm')

/-! ## Progress -/

namespace Progress

/-- A file that has not failed before is told last. -/
theorem fail_fresh {p : Progress} {m : String × Outcome Datum} (fresh : m.1 ∉ p.failed.map (·.1)) :
    (p.fail m.1 m.2.error).failed = p.failed ++ [(m.1, m.2.failureText)] := by
  unfold fail
  dsimp only
  rw [if_neg]
  · rfl
  · intro hany
    obtain ⟨f, hf, hname⟩ := List.any_eq_true.mp hany
    exact fresh (List.mem_map.mpr ⟨f, hf, by simpa using hname⟩)

/-- What progress has grown by, once these files are taken in. -/
structure Grows (p : Progress) (told : List (String × Outcome Datum)) (q : Progress) : Prop where
  written : q.written = p.written ++ (successes told).map shownTarget
  failed : q.failed = p.failed ++ (failures told).map fun m => (m.1, m.2.failureText)
  warnings : q.warnings = p.warnings ++ (successes told).flatMap (·.2.warnings)

theorem Grows.trans {p q q' : Progress} {later : List (String × Outcome Datum)}
    (h : p.Grows told q) (h' : q.Grows later q') : p.Grows (told ++ later) q' where
  written := by simp [h'.written, h.written, successes]
  failed := by simp [h'.failed, h.failed, failures]
  warnings := by simp [h'.warnings, h.warnings, successes]

theorem take_grows {p : Progress} {m : String × Outcome Datum} (fresh : m.1 ∉ p.failed.map (·.1)) :
    p.Grows [m] (p.take m) := by
  unfold take
  cases herror : m.2.isError with
  | true =>
    rw [if_pos rfl]
    exact ⟨by simp [successes, herror], by simp [fail_fresh fresh, failures, herror],
      by simp [successes, herror]⟩
  | false =>
    rw [if_neg Bool.false_ne_true]
    exact ⟨by simp [succeed, successes, shownTarget, herror], by simp [succeed, failures, herror],
      by simp [succeed, successes, herror]⟩

theorem taken_grows {p : Progress} (distinct : (p.failed.map (·.1) ++ told.map (·.1)).Nodup) :
    p.Grows told (told.foldl take p) := by
  induction told generalizing p with
  | nil => exact ⟨by simp [successes], by simp [failures], by simp [successes]⟩
  | cons m rest ih =>
    have hfresh : m.1 ∉ p.failed.map (·.1) := fun hm =>
      (List.nodup_append.mp distinct).2.2 _ hm _ List.mem_cons_self rfl
    have hone := take_grows hfresh
    have hfailed : (p.take m).failed.map (·.1) = p.failed.map (·.1) ++ (failures [m]).map (·.1) := by
      rw [hone.failed, List.map_append, List.map_map]
      rfl
    -- the names of those that failed are among the names taken in
    have hdistinct : ((p.take m).failed.map (·.1) ++ rest.map (·.1)).Nodup := by
      rw [List.map_cons, List.append_cons] at distinct
      rw [hfailed]
      have hsub : (failures [m]).Sublist [m] := List.filter_sublist
      exact distinct.sublist (.append_right (.append_left (hsub.map (·.1)) _) _)
    exact hone.trans (ih hdistinct)

/-- The answer of a run that has taken in these files accounts for them. -/
theorem conclude_accounts (distinct : (told.map (·.1)).Nodup) :
    Accounts told (told.foldl take {}).conclude := by
  have hgrows : Grows {} told (told.foldl take {}) := taken_grows (by simpa using distinct)
  generalize told.foldl take {} = q at hgrows
  have hwritten : q.written = (successes told).map shownTarget := by simpa using hgrows.written
  have hfailed : q.failed = (failures told).map fun m => (m.1, m.2.failureText) := by
    simpa using hgrows.failed
  have hwarnings : q.warnings = (successes told).flatMap (·.2.warnings) := by simpa using hgrows.warnings
  have hfiles : q.failedFiles = .ofStrings ((failures told).map (·.1)) := by
    rw [failedFiles, hfailed, List.map_map]
    rfl
  have hlines : q.failureLines = (failures told).map failureLine := by
    rw [failureLines, hfailed, List.map_map]
    rfl
  have hall : q.warnings ++ q.failureLines = allWarnings told := by
    rw [hwarnings, hlines, allWarnings]
  have hfailures : q.failed = [] ↔ failures told = [] := by rw [hfailed, List.map_eq_nil_iff]
  have hsuccesses : q.written = [] ↔ successes told = [] := by rw [hwritten, List.map_eq_nil_iff]
  unfold conclude
  split
  · rename_i file text rest hfirst hnone
    obtain ⟨m, hm, hname⟩ : ∃ m, (failures told).head? = some m ∧ (file, text) = (m.1, m.2.failureText) := by
      have hhead := congrArg List.head? hfailed
      rw [hfirst, List.head?_map] at hhead
      exact Option.map_eq_some_iff.mp hhead.symm |>.imp fun m hm => ⟨hm.1, hm.2.symm⟩
    obtain ⟨rfl, rfl⟩ := Prod.mk.inj hname
    refine ⟨divided told, apart_of_nodup distinct, ?_, ?_, ?_, fun h => ?_, fun h => ?_, fun h => ?_⟩
    · rw [hfiles]
      rfl
    · rw [ne_eq, ← hfailures, ← hsuccesses, hfirst, hnone]
      simp
    · intro _
      rw [hm]
      exact ⟨rfl, rfl⟩
    all_goals exact absurd h.symm Bool.false_ne_true
  · rename_i hno
    rw [hall, hwritten, hfiles]
    refine ⟨divided told, apart_of_nodup distinct, ?_, ?_, ?_, ?_, ?_, ?_⟩
    · rw [Outcome.metadata_settled]
      rfl
    · rw [Outcome.isError_settled, ne_eq, ← hfailures, ← hsuccesses]
      refine ⟨fun h => absurd h Bool.false_ne_true, ?_⟩
      rintro ⟨hfirst, hnone⟩
      obtain ⟨f, rest, hf⟩ := List.exists_cons_of_ne_nil hfirst
      exact absurd hnone (hno f.1 f.2 rest hf)
    · rw [Outcome.isError_settled]
      exact fun h => absurd h Bool.false_ne_true
    · exact fun _ => Outcome.data_settled ..
    · exact fun _ => Outcome.warnings_settled ..
    · intro _
      rw [Outcome.status_settled]
      simp

end Progress

/-! ## Runs -/

/-- Files that were migrated are taken in whatever the settings say of failures. -/
theorem migrateFrom_past (chain : Chain (Ends s runId) r done r') (fine : failures done = [])
    (rest : List String) (p : Progress) :
    migrateFrom s runId (done.map (·.1) ++ rest) p r =
      migrateFrom s runId rest (done.foldl Progress.take p) r' := by
  rw [failures_eq_nil] at fine
  induction chain generalizing p with
  | nil r => rfl
  | @cons m later r t u first chain ih =>
    have hok : m.2.isError = false := fine m List.mem_cons_self
    have htake : p.take m = p.succeed m.2 := by
      unfold Progress.take
      rw [hok]
      rfl
    have hnext := ih (fun m' hm' => fine m' (List.mem_cons_of_mem _ hm')) (p.take m)
    rw [List.map_cons, List.cons_append, migrateFrom, Leaves.of_bind_ok first, List.foldl_cons, ← hnext,
      hok, htake]
    rfl

/-- With fail-fast the first file that fails ends the run. -/
theorem migrateFrom_stops (fast : s.flag .failFast = true) {file : String} {bad : Outcome Datum}
    (ends : Ends s runId (file, bad) r r') (fails : bad.isError = true) (rest : List String)
    (p : Progress) :
    Leaves (migrateFrom s runId (file :: rest) p) r
      (.ok (.ended bad.error [] [("failed_files", .ofStrings [file])])) r' := by
  unfold Leaves
  rw [migrateFrom, Leaves.of_bind_ok ends, fails, fast]
  rfl

/-- A run accounts for every file. If the files of a run each come to something, the run has an answer,
and the answer accounts for them; and every answer comes of files that each came to something. With
fail-fast that holds of a run in which no file fails. Otherwise the run ends with the first file that
fails and as that file left everything, and the answer has the failure of that file. -/
theorem migrate_accounts {files : List String} (distinct : files.Nodup) :
    (s.flag .failFast = false →
      (∀ told r, told.map (·.1) = files → Chain (Ends s runId) ⟨[], d⟩ told r →
        ∃ o, (migrate files s runId).run d = (.ok o, r) ∧ Accounts told o) ∧
      ∀ o r, (migrate files s runId).run d = (.ok o, r) →
        ∃ told, told.map (·.1) = files ∧ Chain (Ends s runId) ⟨[], d⟩ told r ∧ Accounts told o) ∧
    (s.flag .failFast = true → ∀ done r, Chain (Ends s runId) ⟨[], d⟩ done r → failures done = [] →
      (done.map (·.1) = files →
        ∃ o, (migrate files s runId).run d = (.ok o, r) ∧ Accounts done o) ∧
      ∀ file bad r' rest, Ends s runId (file, bad) r r' → bad.isError = true →
        files = done.map (·.1) ++ file :: rest →
        ∃ o, (migrate files s runId).run d = (.ok o, r') ∧ o.isError = true ∧ o.error = bad.error ∧
          o.metadata.get? "failed_files" = some (.ofStrings [file])) := by
  refine ⟨fun patient => ⟨?_, ?_⟩, fun fast done r chain fine => ⟨?_, ?_⟩⟩
  · rintro told r rfl chain
    exact ⟨_, run_of_leaves (migrateFrom_of_told patient chain {}), Progress.conclude_accounts distinct⟩
  · intro o r hrun
    obtain ⟨told, rfl, chain, rfl⟩ := migrateFrom_told patient (leaves_of_run hrun)
    exact ⟨told, rfl, chain, Progress.conclude_accounts distinct⟩
  · rintro rfl
    have hpast := migrateFrom_past chain fine [] {}
    rw [List.append_nil] at hpast
    exact ⟨_, run_of_leaves hpast, Progress.conclude_accounts distinct⟩
  · rintro file bad r' rest ends fails rfl
    have hstops := migrateFrom_stops fast ends fails rest (done.foldl Progress.take {})
    have hpast := migrateFrom_past chain fine (file :: rest) {}
    exact ⟨_, run_of_leaves (hpast.trans hstops), rfl, rfl, rfl⟩

/-- The first failure ends the run. -/
def hasty : Settings := Settings.standard.put .failFast (.bool true)

/-- Of a file that is there and one that is not, with and without fail-fast. -/
theorem migrate_accounts_for_missing :
    (∃ told o r, (migrate ["a.js", "gone.js"] .standard "run").run neighbours = (.ok o, r) ∧
      told.map (·.1) = ["a.js", "gone.js"] ∧ Chain (Ends .standard "run") ⟨[], neighbours⟩ told r ∧
      Accounts told o) ∧
    ∃ bad r' o, Ends hasty "run" ("gone.js", bad) ⟨[], neighbours⟩ r' ∧ bad.isError = true ∧
      (migrate ["gone.js", "a.js"] hasty "run").run neighbours = (.ok o, r') ∧ o.error = bad.error := by
  refine ⟨?_, ?_⟩
  · have hverdict : verdict ((migrate ["a.js", "gone.js"] .standard "run").run neighbours).1 =
        some (false, true) := by
      decide +kernel
    cases hrun : (migrate ["a.js", "gone.js"] .standard "run").run neighbours with
    | mk x r =>
      rw [hrun] at hverdict
      obtain ⟨o, rfl, -⟩ := exists_of_toOption_map hverdict
      obtain ⟨told, hfiles, hchain, haccounts⟩ :=
        ((@migrate_accounts .standard "run" neighbours ["a.js", "gone.js"] (by decide)).1 rfl).2 o r hrun
      exact ⟨told, o, r, rfl, hfiles, hchain, haccounts⟩
  · have hfails : ((migrateFile "gone.js" hasty "run").run neighbours).1.toOption.map (·.isError) =
        some true := by
      decide +kernel
    cases hrun : (migrateFile "gone.js" hasty "run").run neighbours with
    | mk x r =>
      rw [hrun] at hfails
      obtain ⟨bad, rfl, hbad⟩ := exists_of_toOption_map hfails
      have hends : Ends hasty "run" ("gone.js", bad) ⟨[], neighbours⟩ r := leaves_of_run hrun
      obtain ⟨o, hstops, -, herror, -⟩ :=
        ((@migrate_accounts hasty "run" neighbours ["gone.js", "a.js"] (by decide)).2 rfl []
          ⟨[], neighbours⟩ (.nil _) rfl).2 "gone.js" bad r ["a.js"] hends hbad rfl
      exact ⟨bad, r, o, hends, hbad, hstops, herror⟩

/-- Where no file was migrated the answer warns of nothing, and there is no line for the failure. -/
theorem failures_unwarned :
    ∃ bad o r, (migrate ["gone.js"] .standard "run").run neighbours = (.ok o, r) ∧
      Settings.standard.flag .failFast = false ∧
      Chain (Ends .standard "run") ⟨[], neighbours⟩ [("gone.js", bad)] r ∧ o.warnings = [] ∧
      allWarnings [("gone.js", bad)] = [failureLine ("gone.js", bad)] := by
  have hfails : ((migrateFile "gone.js" .standard "run").run neighbours).1.toOption.map (·.isError) =
      some true := by
    decide +kernel
  cases hrun : (migrateFile "gone.js" .standard "run").run neighbours with
  | mk x r =>
    rw [hrun] at hfails
    obtain ⟨bad, rfl, hbad⟩ := exists_of_toOption_map hfails
    have hchain : Chain (Ends .standard "run") ⟨[], neighbours⟩ [("gone.js", bad)] r :=
      .cons (leaves_of_run hrun) (.nil r)
    have hleaves := migrateFrom_of_told rfl hchain {}
    have haccounts : Accounts [("gone.js", bad)] _ := Progress.conclude_accounts (by simp)
    have herror := haccounts.isError_iff.mpr (by simp [failures, successes, hbad])
    refine ⟨bad, _, r, run_of_leaves hleaves, rfl, hchain, (haccounts.ended herror).1, ?_⟩
    simp [allWarnings, successes, failures, hbad]

end TestMigration.Migration
