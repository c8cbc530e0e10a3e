import TestMigration.Proofs.Outputs

/-! What becomes of the originals when sources are overwritten. The copy of a source is made before
the source is overwritten, but only if nothing stands where the copy belongs. So that place keeps
the first original that came there, whatever comes of the run. -/

namespace TestMigration.Migration

open Disk (Gains)

variable {s : Settings} {runId : String} {files : List String} {d : Disk} {c : Route}

/-- The place `c` of a copy on the way from the disk `d`: what it holds is the original of a listed
source, and as long as it is empty no source with its copy there was touched. -/
structure Secured (s : Settings) (files : List String) (d : Disk) (c : Route) (e : Disk) : Prop where
  cwd : e.cwd = d.cwd
  copies : ∀ {bytes}, e.get? c = some (.file bytes) → ∃ a ∈ files, copyPlace d.cwd s a = c ∧
    d.get? (sourcePlace d.cwd a) = some (.file bytes)
  originals : e.get? c = none → ∀ a ∈ files, copyPlace d.cwd s a = c →
    e.get? (sourcePlace d.cwd a) = d.get? (sourcePlace d.cwd a)

theorem secured_of_fresh (h : d.get? c = none) : Secured s files d c d where
  cwd := rfl
  copies := by
    intro bytes hc
    rw [h] at hc
    cases hc
  originals _ _ _ _ := rfl

/-- A copy that is new is that of a source which nobody has touched before. -/
theorem Secured.gains {e e' : Disk} {file : String} (h : Secured s files d c e) (hfile : file ∈ files)
    (there : ∀ a ∈ files, ∃ bytes, d.get? (sourcePlace d.cwd a) = some (.file bytes))
    (hg : Gains (Copied s file e) e e') : Secured s files d c e' where
  cwd := hg.cwd.trans h.cwd
  copies := by
    intro bytes hc
    rcases hg.new hc with hold | ⟨hnone, hplace, hsource⟩
    · exact h.copies hold
    · rw [h.cwd] at hplace hsource
      refine ⟨file, hfile, hplace.symm, ?_⟩
      rw [← h.originals hnone file hfile hplace.symm, hsource]
  originals := by
    intro hnone a ha hplace
    have hbefore : e.get? c = none := by
      cases hc : e.get? c with
      | none => rfl
      | some item =>
        rw [hg.stays hc] at hnone
        cases hnone
    obtain ⟨bytes, hbytes⟩ := there a ha
    have hsame := h.originals hbefore a ha hplace
    rw [hbytes] at hsame ⊢
    exact hg.stays hsame

theorem Secured.turn {e e' : Disk} {file : String} {x : Except Failure (Outcome Datum)}
    (h : Secured s files d c e) (hfile : file ∈ files) (backups : s.flag .backups = true)
    (there : ∀ a ∈ files, ∃ bytes, d.get? (sourcePlace d.cwd a) = some (.file bytes))
    (apart : ∀ a ∈ files, ∀ b ∈ files, a ≠ b → sourcePlace d.cwd a ≠ targetPlace d.cwd s b)
    (clear : ∀ a ∈ files, targetPlace d.cwd s a ≠ c) (ht : Turn s file e x e') :
    Secured s files d c e' := by
  cases ht with
  | refused _ gains => exact h.gains hfile there gains
  | @written _ _ _ conversion secured _ _ _ gains secures _ noDirectory _ _ _ =>
    have hsecured := h.gains hfile there gains
    rw [h.cwd] at secures noDirectory ⊢
    have hroot : targetPlace d.cwd s file ≠ [] := by
      intro he
      rw [he] at noDirectory
      exact noDirectory rfl
    have hc : (secured.put (targetPlace d.cwd s file) (.file conversion.code.toUTF8)).get? c =
        secured.get? c := Disk.get?_put_of_ne hroot (clear file hfile).symm secured _
    refine ⟨hsecured.cwd, ?_, ?_⟩
    · intro bytes hbytes
      rw [hc] at hbytes
      exact hsecured.copies hbytes
    · intro hnone a ha hplace
      rw [hc] at hnone
      rw [Disk.get?_put_of_ne hroot]
      · exact hsecured.originals hnone a ha hplace
      -- only the file itself has its source there, and then its copy was made
      · intro hsame
        by_cases hself : a = file
        · rw [hself] at hsame hplace
          have hthere := secures backups hsame.symm
          rw [hplace] at hthere
          exact hthere hnone
        · exact apart a ha file hfile hself hsame

/-- The first original is kept. When a source was overwritten in a run, the place of its copy holds
what one of the listed sources with that place held before the run, if no other file's target lies
at a listed source or at that place and nothing but files ever stood there. -/
theorem first_original_kept {work : Work Disk (Outcome Value)} {x : Except Failure (Outcome Value)}
    {r : Running Disk} {file : String} (run : Runs s runId d files work) (ends : work.run d = (x, r))
    (backups : s.flag .backups = true) (wet : s.flag .dryRun = false) (cwd : ".." ∉ d.cwd)
    (there : ∀ a ∈ files, ∃ bytes, d.get? (sourcePlace d.cwd a) = some (.file bytes))
    (apart : ∀ a ∈ files, ∀ b ∈ files, a ≠ b → sourcePlace d.cwd a ≠ targetPlace d.cwd s b)
    (listed : file ∈ files) (clear : ∀ a ∈ files, targetPlace d.cwd s a ≠ copyPlace d.cwd s file)
    (fresh : d.get? (copyPlace d.cwd s file) = none)
    (noDirectory : r.state.get? (copyPlace d.cwd s file) ≠ some .directory)
    (overwritten : r.state.get? (sourcePlace d.cwd file) ≠ d.get? (sourcePlace d.cwd file)) :
    ∃ first ∈ files, copyPlace d.cwd s first = copyPlace d.cwd s file ∧
      ∃ bytes, d.get? (sourcePlace d.cwd first) = some (.file bytes) ∧
        r.state.get? (copyPlace d.cwd s file) = some (.file bytes) := by
  obtain ⟨done, hdone, hchain⟩ := run.chain (leaves_of_run ends)
  have hsecured : Secured s files d (copyPlace d.cwd s file) r.state := by
    refine hchain.keeps (P := fun t => Secured s files d (copyPlace d.cwd s file) t.state) ?_
      (secured_of_fresh fresh)
    rintro a ha t t' ⟨y, hy⟩ ht
    have hfile : a ∈ files := hdone.subset ha
    have hcwd : ".." ∉ t.state.cwd := by rwa [ht.cwd]
    exact ht.turn hfile backups there apart clear (migrateFile_leaves wet hcwd hy)
  cases hcopy : r.state.get? (copyPlace d.cwd s file) with
  | none => exact absurd (hsecured.originals hcopy file listed rfl) overwritten
  | some item =>
    cases item with
    | directory => exact absurd hcopy noDirectory
    | file bytes =>
      obtain ⟨first, hfirst, hplace, hbytes⟩ := hsecured.copies hcopy
      exact ⟨first, hfirst, hplace, bytes, hbytes, rfl⟩

/-- An original is kept when no other listed file has its copy in the same place. -/
theorem original_kept {work : Work Disk (Outcome Value)} {x : Except Failure (Outcome Value)}
    {r : Running Disk} {file : String} (run : Runs s runId d files work) (ends : work.run d = (x, r))
    (backups : s.flag .backups = true) (wet : s.flag .dryRun = false) (cwd : ".." ∉ d.cwd)
    (there : ∀ a ∈ files, ∃ bytes, d.get? (sourcePlace d.cwd a) = some (.file bytes))
    (apart : ∀ a ∈ files, ∀ b ∈ files, a ≠ b → sourcePlace d.cwd a ≠ targetPlace d.cwd s b)
    (listed : file ∈ files) (clear : ∀ a ∈ files, targetPlace d.cwd s a ≠ copyPlace d.cwd s file)
    (fresh : d.get? (copyPlace d.cwd s file) = none)
    (noDirectory : r.state.get? (copyPlace d.cwd s file) ≠ some .directory)
    (alone : ∀ a ∈ files, a ≠ file → copyPlace d.cwd s a ≠ copyPlace d.cwd s file)
    (overwritten : r.state.get? (sourcePlace d.cwd file) ≠ d.get? (sourcePlace d.cwd file)) :
    r.state.get? (copyPlace d.cwd s file) = d.get? (sourcePlace d.cwd file) := by
  obtain ⟨first, hfirst, hplace, bytes, horiginal, hcopy⟩ := first_original_kept run ends backups wet
    cwd there apart listed clear fresh noDirectory overwritten
  have hself : first = file := by
    by_contra hne
    exact alone first hfirst hne hplace
  rw [hcopy, ← horiginal, hself]

/-- Copies go into one directory. -/
def copiesIntoOne : Settings := Settings.standard.put .backupRoot (.text "kept")

/-- Does a file with these contents stand at a place? -/
def holdsAt (e : Disk) (p : Route) (text : String) : Bool :=
  match e.get? p with
  | some (.file bytes) => bytes == text.toUTF8
  | _ => false

theorem get?_of_holdsAt {e : Disk} {p : Route} {text : String} (h : holdsAt e p text = true) :
    e.get? p = some (.file text.toUTF8) := by
  unfold holdsAt at h
  split at h
  · rename_i bytes hbytes
    rw [hbytes, eq_of_bytes h]
  · cases h

theorem original_kept_beside : ∃ x r,
    (migrate ["a/x.js", "b/y.js"] copiesIntoOne "run").run twins = (x, r) ∧
      r.state.get? (sourcePlace twins.cwd "b/y.js") = some (.file "c;\n".toUTF8) ∧
      r.state.get? (copyPlace twins.cwd copiesIntoOne "b/y.js") =
        twins.get? (sourcePlace twins.cwd "b/y.js") := by
  have hafter : holdsAt ((migrate ["a/x.js", "b/y.js"] copiesIntoOne "run").run twins).2.state
        (sourcePlace twins.cwd "b/y.js") "c;\n" = true ∧
      holdsAt ((migrate ["a/x.js", "b/y.js"] copiesIntoOne "run").run twins).2.state
        (copyPlace twins.cwd copiesIntoOne "b/y.js") "c.first();\n" = true := by
    decide +kernel
  obtain ⟨x, r, hrun⟩ : ∃ x r,
      (migrate ["a/x.js", "b/y.js"] copiesIntoOne "run").run twins = (x, r) := ⟨_, _, (Prod.eta _).symm⟩
  rw [hrun] at hafter
  have hsource := get?_of_holdsAt hafter.1
  have hcopy := get?_of_holdsAt hafter.2
  have hfirst : twins.get? (sourcePlace twins.cwd "a/x.js") = some (.file "a.first();\n".toUTF8) :=
    get?_of_holdsAt (by decide +kernel)
  have hsecond : twins.get? (sourcePlace twins.cwd "b/y.js") = some (.file "c.first();\n".toUTF8) :=
    get?_of_holdsAt (by decide +kernel)
  refine ⟨x, r, hrun, hsource, ?_⟩
  refine original_kept (.listed ["a/x.js", "b/y.js"]) hrun (by decide +kernel) (by decide +kernel)
    (by decide +kernel) ?_ (by decide +kernel) (by decide) (by decide +kernel) (by decide +kernel)
    ?_ (by decide +kernel) ?_
  · intro a ha
    rcases List.mem_pair.mp ha with rfl | rfl
    · exact ⟨_, hfirst⟩
    · exact ⟨_, hsecond⟩
  · intro hdirectory
    cases hcopy.symm.trans hdirectory
  · intro hsame
    have htexts := hsource.symm.trans (hsame.trans hsecond)
    injection htexts with htexts
    injection htexts with htexts
    exact absurd htexts (by decide +kernel)

/-- Is the item something else than a file with these contents? -/
def lacks (text : String) : Item → Bool
  | .file bytes => !(bytes == text.toUTF8)
  | .directory => true

theorem ne_of_lacks {text : String} {bytes : ByteArray} (h : lacks text (.file bytes) = true) :
    bytes ≠ text.toUTF8 := by
  intro hsame
  have hself : (bytes == bytes) = true := by
    cases bytes
    exact beq_self_eq_true (α := Array UInt8) _
  replace h : (!(bytes == text.toUTF8)) = true := h
  rw [← hsame, hself] at h
  cases h

/-- Two sources of the same name have one place for their copies, and the second original is in no
file after the run. -/
theorem second_original_lost : ∃ x r,
    (migrate ["a/x.js", "b/x.js"] copiesIntoOne "run").run twins = (x, r) ∧
      twins.get? (sourcePlace twins.cwd "b/x.js") = some (.file "b.first();\n".toUTF8) ∧
      r.state.get? (sourcePlace twins.cwd "b/x.js") = some (.file "b;\n".toUTF8) ∧
      ∀ p bytes, r.state.get? p = some (.file bytes) → bytes ≠ "b.first();\n".toUTF8 := by
  have hafter : holdsAt ((migrate ["a/x.js", "b/x.js"] copiesIntoOne "run").run twins).2.state
        (sourcePlace twins.cwd "b/x.js") "b;\n" = true ∧
      ∀ e ∈ ((migrate ["a/x.js", "b/x.js"] copiesIntoOne "run").run twins).2.state.items,
        lacks "b.first();\n" e.2 = true := by
    decide +kernel
  obtain ⟨x, r, hrun⟩ : ∃ x r,
      (migrate ["a/x.js", "b/x.js"] copiesIntoOne "run").run twins = (x, r) := ⟨_, _, (Prod.eta _).symm⟩
  rw [hrun] at hafter
  refine ⟨x, r, hrun, get?_of_holdsAt (by decide +kernel), get?_of_holdsAt hafter.1, ?_⟩
  intro p bytes hp
  exact ne_of_lacks (hafter.2 _ (Disk.mem_of_file hp))

end TestMigration.Migration
