import TestMigration.Proofs.Turn

/-! Runs over many files as chains of the migrations of single files. Whatever a run comes to,
the files that it got to were migrated one after the other, each on the disk that the ones before
it left. -/

namespace TestMigration

/-- Steps one after the other, each labelled with what it was made for. -/
inductive Chain {α σ : Type} (step : α → σ → σ → Prop) : σ → List α → σ → Prop where
  | nil (s : σ) : Chain step s [] s
  | cons {a : α} {as : List α} {s t u : σ} (first : step a s t) (rest : Chain step t as u) :
      Chain step s (a :: as) u

namespace Chain

variable {α σ : Type} {step : α → σ → σ → Prop} {s u : σ}

theorem split {as bs : List α} (h : Chain step s (as ++ bs) u) :
    ∃ t, Chain step s as t ∧ Chain step t bs u := by
  induction as generalizing s with
  | nil => exact ⟨s, .nil s, h⟩
  | cons a as ih =>
    cases h with
    | cons first rest =>
      obtain ⟨t, has, hbs⟩ := ih rest
      exact ⟨t, .cons first has, hbs⟩

theorem split_cons {as bs : List α} {a : α} (h : Chain step s (as ++ a :: bs) u) :
    ∃ t t', Chain step s as t ∧ step a t t' ∧ Chain step t' bs u := by
  obtain ⟨t, has, hrest⟩ := h.split
  cases hrest with
  | cons first rest => exact ⟨t, _, has, first, rest⟩

/-- What every step of a chain keeps holds at its end. -/
theorem keeps {P : σ → Prop} {as : List α} (h : Chain step s as u)
    (hstep : ∀ a ∈ as, ∀ t t', step a t t' → P t → P t') (hs : P s) : P u := by
  induction h with
  | nil s => exact hs
  | cons first rest ih =>
    refine ih ?_ (hstep _ List.mem_cons_self _ _ first hs)
    intro a ha
    exact hstep a (List.mem_cons_of_mem _ ha)

end Chain

namespace Migration

/-- One file is migrated, whatever comes of it. -/
def Migrates (s : Settings) (runId : String) (file : String) (r r' : Running Disk) : Prop :=
  ∃ x, Leaves (migrateFile file s runId) r x r'

/-- The runs over many files: over a list, and over the files found below a directory. -/
inductive Runs (s : Settings) (runId : String) (d : Disk) :
    List String → Work Disk (Outcome Value) → Prop where
  | listed (files : List String) : Runs s runId d files (migrate files s runId)
  | found {directory : String} {source : PathName} {files : List String} {d' : Disk}
      (names : PathName.ofSource directory = .ok source)
      (finds : Discovery.below source s d = .ok files d') :
      Runs s runId d files (migrateDirectory directory s runId)

variable {s : Settings} {runId : String}

/-! ## The search -/

theorem reads_keeps (settings : Settings) (path : String) : Reads (Discovery.keeps settings path) := by
  have husesLegacy : Reads (Discovery.usesLegacy path settings) := by
    refine (Filing.reads_size path).bind fun size => (reads_ofExcept _).bind fun refuses => ?_
    split
    · exact reads_pure _
    · exact (Filing.reads_readText path).bind fun source => (reads_ofExcept _).bind fun _ => reads_pure _
  refine Relates.tryCatch (fun h h' => h.trans h') husesLegacy fun e => ?_
  split
  · exact reads_pure _
  · exact reads_throw _

theorem reads_below (directory : PathName) (settings : Settings) :
    Reads (Discovery.below directory settings) := by
  refine reads_get.bind fun disk => ?_
  refine (reads_stepwise.mapM (fun pattern => reads_ofExcept _) _).bind fun found => ?_
  exact reads_stepwise.filterM (reads_keeps settings) _

theorem reads_resolve (sources : List String) (root : Option String) (settings : Settings) :
    Reads (Discovery.resolve sources root settings) := by
  refine reads_get.bind fun disk => ?_
  exact (reads_stepwise.mapM (fun directory => reads_stepwise.filterM (reads_keeps settings) _)
    _).bind fun found => reads_pure _

/-! ## Chains of migrations -/

/-- The first file is migrated, and what follows gets to a part of the others. -/
theorem chain_cons {α : Type} {file : String} {rest : List String} {next : Outcome Datum → Work Disk α}
    {r r' : Running Disk} {x : Except Failure α}
    (h : Leaves (migrateFile file s runId >>= next) r x r')
    (hnext : ∀ o t, Leaves (next o) t x r' →
      ∃ done, done <+: rest ∧ Chain (Migrates s runId) t done r') :
    ∃ done, done <+: file :: rest ∧ Chain (Migrates s runId) r done r' := by
  rcases h.bind with ⟨o, t, hfile, hrest⟩ | ⟨e, hfile, -⟩
  · obtain ⟨done, hdone, hchain⟩ := hnext o t hrest
    exact ⟨file :: done, (List.prefix_cons_inj file).mpr hdone, .cons ⟨_, hfile⟩ hchain⟩
  · exact ⟨[file], (List.prefix_cons_inj file).mpr List.nil_prefix, .cons ⟨_, hfile⟩ (.nil _)⟩

theorem migrateFrom_chain {files : List String} {p : Progress} {r r' : Running Disk}
    {x : Except Failure (Outcome Value)} (h : Leaves (migrateFrom s runId files p) r x r') :
    ∃ done, done <+: files ∧ Chain (Migrates s runId) r done r' := by
  induction files generalizing p r with
  | nil =>
    obtain ⟨-, rfl⟩ := h.pure
    exact ⟨[], List.nil_prefix, .nil _⟩
  | cons file rest ih =>
    refine chain_cons h fun o t hnext => ?_
    split at hnext
    · exact ih hnext
    split at hnext
    · obtain ⟨-, rfl⟩ := hnext.pure
      exact ⟨[], List.nil_prefix, .nil _⟩
    · exact ih hnext

theorem migrateFound_chain {files : List String} {t : Tally} {r r' : Running Disk}
    {x : Except Failure (Outcome Value)} (h : Leaves (migrateFound s runId files t) r x r') :
    ∃ done, done <+: files ∧ Chain (Migrates s runId) r done r' := by
  induction files generalizing t r with
  | nil =>
    obtain ⟨-, rfl⟩ := h.pure
    exact ⟨[], List.nil_prefix, .nil _⟩
  | cons file rest ih =>
    refine chain_cons h fun o t hnext => ?_
    split at hnext
    · dsimp only at hnext
      split at hnext
      · obtain ⟨-, rfl⟩ := hnext.pure
        exact ⟨[], List.nil_prefix, .nil _⟩
      · exact ih hnext
    · exact ih hnext

/-- A run over a directory is refused, finds nothing, or is a run over what it finds. -/
theorem migrateDirectory_leaves {d d' : Disk} {directory : String} {source : PathName}
    {files : List String} {r' : Running Disk} {x : Except Failure (Outcome Value)}
    (hsource : PathName.ofSource directory = .ok source)
    (hfiles : Leaves (Discovery.below source s) d (.ok files) d')
    (h : Leaves (migrateDirectory directory s runId) ⟨[], d⟩ x r') :
    (r' = ⟨[], d⟩ ∧ (∃ e, x = .ok (.failure e))) ∨
      (r' = ⟨[], d⟩ ∧ files = [] ∧ x = .ok (.success (some (.list [])))) ∨
      Leaves (migrateFound s runId files {}) ⟨[], d⟩ x r' := by
  have hd := reads_below source s _ _ _ hfiles
  subst hd
  unfold migrateDirectory at h
  rw [hsource] at h
  have hopen := h.get_bind
  split at hopen
  · obtain ⟨rfl, rfl⟩ := hopen.pure
    exact .inl ⟨rfl, _, rfl⟩
  rcases hopen.onState_bind with ⟨found, t, hfound, hrest⟩ | ⟨e, t, hfound, -⟩
  · obtain ⟨hsame, rfl⟩ := hfound.unique hfiles
    cases hsame
    split at hrest
    · rename_i hempty
      obtain ⟨rfl, rfl⟩ := hrest.pure
      exact .inr (.inl ⟨rfl, by simpa using hempty, rfl⟩)
    · exact .inr (.inr hrest)
  · cases (hfound.unique hfiles).1

/-- Whatever a run comes to, it has migrated the first of its files one after the other. -/
theorem Runs.chain {d : Disk} {files : List String} {work : Work Disk (Outcome Value)}
    {r' : Running Disk} {x : Except Failure (Outcome Value)} (run : Runs s runId d files work)
    (h : Leaves work ⟨[], d⟩ x r') :
    ∃ done, done <+: files ∧ Chain (Migrates s runId) ⟨[], d⟩ done r' := by
  cases run with
  | listed files => exact migrateFrom_chain h
  | found hsource hfiles =>
    rcases migrateDirectory_leaves hsource hfiles h with ⟨rfl, -⟩ | ⟨rfl, -, -⟩ | h
    · exact ⟨[], List.nil_prefix, .nil _⟩
    · exact ⟨[], List.nil_prefix, .nil _⟩
    · exact migrateFound_chain h

end Migration

end TestMigration
