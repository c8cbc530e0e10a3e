import TestMigration.Proofs.Independence
import TestMigration.Proofs.Outputs

/-! Runs over many files in another order. Files that keep apart can change places: two that follow one
another come to the same either way round, and whatever order is asked for is reached by changing
neighbours. -/

namespace TestMigration

open Disk (Abreast Grows Meanwhile Usable)

namespace Disk

/-- Disks that no operation can tell apart. -/
structure Same (d d' : Disk) : Prop where
  cwd : d'.cwd = d.cwd
  items : ∀ p, d'.get? p = d.get? p

variable {d d' d'' : Disk} {own : List Route}

theorem Same.refl (d : Disk) : Same d d := ⟨rfl, fun _ => rfl⟩

theorem Same.trans (h : Same d d') (h' : Same d' d'') : Same d d'' :=
  ⟨h'.cwd.trans h.cwd, fun p => (h'.items p).trans (h.items p)⟩

theorem Same.inside (h : Same d d') (inside : d.Inside) : d'.Inside := by
  intro p hp
  rw [h.items] at hp ⊢
  exact inside p hp

theorem Same.grows (h : Same d d') : Grows [] d d' := ⟨h.cwd, fun p => .inl (h.items p)⟩

theorem Same.find (h : Same d d') (path : String) : d'.find path = d.find path := by
  have hfollow : ∀ names p, d'.follow p names = d.follow p names := by
    intro names
    induction names with
    | nil => exact fun p => by rw [follow, follow]
    | cons name rest ih =>
      intro p
      rw [follow, follow, h.items, ih, ih, ih]
  unfold Disk.find
  rw [h.cwd, hfollow]

theorem Same.see (h : Same d d') (path : String) : d'.see path = d.see path := by
  unfold Disk.see
  rw [h.find]
  cases d.find path with
  | error f => rfl
  | ok p =>
    dsimp only
    rw [h.items]

/-- Nobody has been at work. -/
theorem Same.meanwhile (h : Same d d') (stands : d.get? d.cwd = some .directory) (inside : d.Inside) :
    Meanwhile [] own d d' := ⟨stands, inside, h.inside inside, h.grows, nofun⟩

theorem Abreast.same_of_same {e e' : Disk} (h : Abreast own d d' e e') (hd : Same d d') : Same e e' :=
  ⟨h.cwd.trans (hd.cwd.symm.trans (hd.cwd.trans h.grows.cwd.symm)), fun p => h.same (hd.items p)⟩

/-- What was added here first and there last, and there first and here last. -/
theorem Abreast.same_of_swapped {others : List Route} {e f f' : Disk}
    (hboth : ∀ t ∈ others, ∀ u ∈ own, ¬ t <+: u ∧ ¬ u <+: t) (hd : Grows others d d')
    (he : Abreast own d d' e f) (he' : Abreast others d e d' f') : Same f f' := by
  refine ⟨by rw [he'.cwd, he.cwd], fun p => ?_⟩
  by_cases hp : d'.get? p = d.get? p
  · rw [he.same hp]
    by_cases hp' : e.get? p = d.get? p
    · rw [he'.same hp', hp, hp']
    · exact he'.kept hp'
  · rw [he.kept hp]
    by_cases hp' : e.get? p = d.get? p
    · exact he'.same hp'
    · -- both have changed it, so both have made a directory of it
      rw [he'.kept hp']
      rcases he.grows.change p with hsame | ⟨-, hdir, u, hu, hbegins, -⟩ | ⟨hown, -⟩
      · exact absurd hsame hp'
      · rcases hd.change p with hsame | ⟨-, hdir', -⟩ | ⟨hothers, -⟩
        · exact absurd hsame hp
        · rw [hdir, hdir']
        · exact absurd hbegins (hboth p hothers u hu).1
      · rcases hd.change p with hsame | ⟨-, -, t, ht, hbegins, -⟩ | ⟨hothers, -⟩
        · exact absurd hsame hp
        · exact absurd hbegins (hboth t ht p hown).2
        · exact absurd List.prefix_rfl (hboth p hothers p hown).1

end Disk

namespace Migration

/-! ## Files that keep apart -/

/-- The files can be migrated in any order: their paths are apart and none of them is the captured
page; and what is missing of a path when the run begins is named plainly. -/
structure Ready (s : Settings) (d : Disk) (files : List String) : Prop where
  inside : d.Inside
  stands : d.get? d.cwd = some .directory
  plain : ∀ f ∈ files, ∀ name ∈ paths s d.cwd f, d.plainly name = true
  apart : ∀ f ∈ files, ∀ g ∈ files, f ≠ g → ∀ p ∈ places s d f, ∀ q ∈ places s d g, ¬ p <+: q
  page : ∀ page, s.text? .snapshotFile = some page → ∀ f ∈ files,
    d.placeFor (PathName.ofString page) ∉ places s d f

/-- A file was migrated, and this is what it came to. -/
def Ends (s : Settings) (runId : String) (made : String × Outcome Datum) (r r' : Running Disk) : Prop :=
  Leaves (migrateFile made.1 s runId) r (.ok made.2) r'

variable {s : Settings} {runId f g : String} {files : List String} {d d' : Disk}
  {r r' r₁ r₂ : Running Disk} {o o' : Outcome Datum}

theorem places_of_cwd (h : d'.cwd = d.cwd) (s : Settings) (file : String) :
    places s d' file = places s d file := by
  unfold places
  rw [h]
  exact List.map_congr_left fun name _ => Disk.placeFor_of_cwd h name

namespace Ready

theorem usable (ready : Ready s d files) (hf : f ∈ files) (hg : g ∈ files) (hne : f ≠ g) :
    ∀ name ∈ paths s d.cwd g, Usable (places s d f) d name := by
  intro name hname
  have hplace : d.placeFor name ∈ places s d g := List.mem_map_of_mem hname
  exact ⟨proper_of_mem_paths hname, ready.plain g hg name hname, fun t ht =>
    ⟨ready.apart f hf g hg hne t ht _ hplace, ready.apart g hg f hf hne.symm _ hplace t ht⟩⟩

theorem usable_alone (ready : Ready s d files) (hf : f ∈ files) :
    ∀ name ∈ paths s d.cwd f, Usable [] d name :=
  fun name hname => ⟨proper_of_mem_paths hname, ready.plain f hf name hname, nofun⟩

theorem mono {files' : List String} (ready : Ready s d files) (hsub : files' ⊆ files) :
    Ready s d files' where
  inside := ready.inside
  stands := ready.stands
  plain f hf := ready.plain f (hsub hf)
  apart f hf g hg := ready.apart f (hsub hf) g (hsub hg)
  page page hpage f hf := ready.page page hpage f (hsub hf)

theorem later {places : List Route} (ready : Ready s d files) (h : Grows places d d')
    (inside : d'.Inside) : Ready s d' files where
  inside := inside
  stands := h.stands ready.stands
  plain f hf name hname := by
    rw [h.cwd] at hname
    exact h.plainly (ready.plain f hf name hname)
  apart f hf g hg := by
    rw [places_of_cwd h.cwd, places_of_cwd h.cwd]
    exact ready.apart f hf g hg
  page page hpage f hf := by
    rw [places_of_cwd h.cwd, Disk.placeFor_of_cwd h.cwd]
    exact ready.page page hpage f hf

end Ready

/-! ## One file -/

theorem twofold_loadSnapshot {R : Disk → Disk → Prop}
    (hsee : ∀ path e e', R e e' → e'.see path = e.see path) : Twofold R (loadSnapshot s) := by
  unfold loadSnapshot
  split
  · exact twofold_pure _
  · exact (Filing.twofold_readText fun {e e'} h => hsee _ e e' h).bind fun _ => twofold_pure _

/-- Disks that cannot be told apart are given the same by a file. -/
theorem Ends.same (ready : Ready s r.state files) (hf : f ∈ files) (h : Ends s runId (f, o) r r')
    (hsame : r.state.Same r₁.state) :
    Grows (places s r.state f) r.state r'.state ∧ r'.state.Inside ∧
      ∃ r₂, Ends s runId (f, o) r₁ r₂ ∧ r'.state.Same r₂.state := by
  have hpage : ∃ y, Leaves (loadSnapshot s) r.state y r.state ∧
      Leaves (loadSnapshot s) r₁.state y r₁.state := by
    obtain ⟨y, t, t', ht, ht', -⟩ :=
      twofold_loadSnapshot (s := s) (R := Disk.Same) (fun path e e' h => h.see path) _ _ hsame
    have hsame := reads_loadSnapshot s _ _ _ ht
    have hsame' := reads_loadSnapshot s _ _ _ ht'
    subst hsame hsame'
    exact ⟨y, ht, ht'⟩
  obtain ⟨x, t, r₂, ht, hr₂, habreast⟩ := migrateFile_concurs runId
    (hsame.meanwhile ready.stands ready.inside) (ready.usable_alone hf) hpage rfl rfl
  obtain ⟨rfl, rfl⟩ := ht.unique h
  exact ⟨habreast.grows, habreast.inside, r₂, hr₂, habreast.same_of_same hsame⟩

theorem Ends.grows (ready : Ready s r.state files) (hf : f ∈ files) (h : Ends s runId (f, o) r r') :
    Grows (places s r.state f) r.state r'.state ∧ r'.state.Inside := by
  obtain ⟨hgrows, inside, -⟩ := h.same ready hf (.refl _)
  exact ⟨hgrows, inside⟩

/-- The captured page is what it was, or cannot be read, and then nothing was changed. -/
theorem Ends.page (ready : Ready s r.state files) (hf : f ∈ files) (h : Ends s runId (f, o) r r')
    {y : Except Failure (Option Snapshot)} (hy : Leaves (loadSnapshot s) r.state y r.state) :
    Leaves (loadSnapshot s) r'.state y r'.state := by
  cases y with
  | error e =>
    rcases migrateFile_begins h with ⟨-, hr⟩ | ⟨c, page, source, -, hloads, -⟩
    · rwa [hr]
    · cases (hloads.unique hy).1
  | ok page =>
    obtain ⟨hgrows, -⟩ := h.grows ready hf
    unfold loadSnapshot at hy ⊢
    cases hfile : s.text? .snapshotFile with
    | none =>
      rw [hfile] at hy
      cases hy.pure.1
      rfl
    | some file =>
      rw [hfile] at hy
      obtain ⟨text, t, hread, hend⟩ := hy.bind_ok
      cases hend.pure.1
      obtain ⟨-, p, bytes, hp, hitem, htext⟩ := Filing.readText_leaves_ok hread
      have hplace := Disk.find_placeFor ready.stands (PathName.proper_ofString file) hp
      have hp' := Disk.find_mono hgrows.cwd (fun _ => hgrows.directory) hp
      have hitem' := hgrows.stays hitem (hplace ▸ ready.page file hfile f hf)
      have hread' : Leaves (Filing.readText (toString (PathName.ofString file))) r'.state (.ok text)
          r'.state := Filing.readText_of_file hp' hitem' htext
      exact hread'.of_bind_ok

/-- Two files that keep apart change places. -/
theorem Ends.swap (ready : Ready s r.state files) (hf : f ∈ files) (hg : g ∈ files) (hne : f ≠ g)
    (h₁ : Ends s runId (f, o) r r₁) (h₂ : Ends s runId (g, o') r₁ r₂) :
    ∃ t₁ t₂, Ends s runId (g, o') r t₁ ∧ Ends s runId (f, o) t₁ t₂ ∧ r₂.state.Same t₂.state := by
  have hpage : ∀ {t : Running Disk} {file : String} {o : Outcome Datum}, file ∈ files →
      Ends s runId (file, o) r t → ∃ y, Leaves (loadSnapshot s) r.state y r.state ∧
        Leaves (loadSnapshot s) t.state y t.state := by
    intro t file o hfile h
    rcases loadSnapshot_leaves s r.state with ⟨page, hy⟩ | ⟨e, hy⟩
    · exact ⟨_, hy, h.page ready hfile hy⟩
    · exact ⟨_, hy, h.page ready hfile hy⟩
  have hboth : ∀ t ∈ places s r.state f, ∀ u ∈ places s r.state g, ¬ t <+: u ∧ ¬ u <+: t :=
    fun t ht u hu => ⟨ready.apart f hf g hg hne t ht u hu, ready.apart g hg f hf hne.symm u hu t ht⟩
  obtain ⟨hgrows, inside⟩ := h₁.grows ready hf
  have hmeanwhile : Meanwhile (places s r.state f) (places s r.state g) r.state r₁.state :=
    ⟨ready.stands, ready.inside, inside, hgrows, hboth⟩
  obtain ⟨x, t₁, t, hx, ht, habreast⟩ := migrateFile_concurs runId hmeanwhile
    (ready.usable hf hg hne) (hpage hf h₁) rfl rfl
  obtain ⟨rfl, rfl⟩ := ht.unique h₂
  have hmeanwhile' : Meanwhile (places s r.state g) (places s r.state f) r.state t₁.state :=
    ⟨ready.stands, ready.inside, habreast.inside, habreast.grows, fun u hu t ht =>
      ⟨(hboth t ht u hu).2, (hboth t ht u hu).1⟩⟩
  obtain ⟨x, t, t₂, ht, hx', habreast'⟩ := migrateFile_concurs runId hmeanwhile'
    (ready.usable hg hf hne.symm) (hpage hg hx) rfl rfl
  obtain ⟨rfl, rfl⟩ := ht.unique h₁
  exact ⟨t₁, t₂, hx, hx', Abreast.same_of_swapped hboth hgrows habreast habreast'⟩

/-! ## Many files -/

theorem Ends.chain_same {told : List (String × Outcome Datum)} (ready : Ready s r.state files)
    (hfiles : told.map (·.1) ⊆ files) (h : Chain (Ends s runId) r told r')
    (hsame : r.state.Same r₁.state) :
    ∃ r₂, Chain (Ends s runId) r₁ told r₂ ∧ r'.state.Same r₂.state := by
  induction h generalizing r₁ with
  | nil r => exact ⟨r₁, .nil r₁, hsame⟩
  | @cons made rest r t u first chain ih =>
    rw [List.map_cons, List.cons_subset] at hfiles
    obtain ⟨hgrows, inside, t₁, hfirst, hsame⟩ := Ends.same ready hfiles.1 first hsame
    obtain ⟨r₂, hchain, hsame⟩ := ih (ready.later hgrows inside) hfiles.2 hsame
    exact ⟨r₂, .cons hfirst hchain, hsame⟩

/-- Two files at the head of a run change places, and the rest of the run comes to the same. -/
theorem Ends.chain_swap {made made' : String × Outcome Datum} {told : List (String × Outcome Datum)}
    {t u : Running Disk} (ready : Ready s r.state files) (hmem : made.1 ∈ files)
    (hmem' : made'.1 ∈ files) (hsub : told.map (·.1) ⊆ files) (hne : made.1 ≠ made'.1)
    (first : Ends s runId made r t) (second : Ends s runId made' t u)
    (chain : Chain (Ends s runId) u told r') :
    ∃ r₂, Chain (Ends s runId) r (made' :: made :: told) r₂ ∧ r'.state.Same r₂.state := by
  obtain ⟨t₁, t₂, hfirst, hsecond, hsame⟩ := Ends.swap ready hmem hmem' hne first second
  obtain ⟨hgrows, inside⟩ := Ends.grows ready hmem first
  obtain ⟨hgrows', inside'⟩ := Ends.grows (ready.later hgrows inside) hmem' second
  have hlater := (ready.later hgrows inside).later hgrows' inside'
  obtain ⟨r₂, hchain, hsame⟩ := Ends.chain_same hlater hsub chain hsame
  exact ⟨r₂, .cons hfirst (.cons hsecond hchain), hsame⟩

/-- In another order the files come to the same. -/
theorem Ends.chain_perm {files' : List String} (hperm : files.Perm files')
    (ready : Ready s r.state files) {told : List (String × Outcome Datum)}
    (hfiles : told.map (·.1) = files) (h : Chain (Ends s runId) r told r') :
    ∃ told' r₂, told'.map (·.1) = files' ∧ Chain (Ends s runId) r told' r₂ ∧ told.Perm told' ∧
      r'.state.Same r₂.state := by
  induction hperm generalizing r r' told with
  | nil => exact ⟨told, r', hfiles, h, .rfl, .refl _⟩
  | @cons file rest rest' _ ih =>
    cases h with
    | nil => cases hfiles
    | @cons made told _ t _ first chain =>
      obtain ⟨rfl, hrest⟩ := List.cons.inj hfiles
      obtain ⟨hgrows, inside⟩ := Ends.grows ready List.mem_cons_self first
      have hlater := (ready.later hgrows inside).mono (List.subset_cons_self _ _)
      obtain ⟨told', r₂, hfiles', hchain, htold, hsame⟩ := ih hlater hrest chain
      exact ⟨made :: told', r₂, by rw [List.map_cons, hfiles'], .cons first hchain, htold.cons made,
        hsame⟩
  | swap g f rest =>
    cases h with
    | nil => cases hfiles
    | @cons made told _ t _ first chain =>
      cases chain with
      | nil => cases (List.cons.inj hfiles).2
      | @cons made' told _ u _ second chain =>
        simp only [List.map_cons, List.cons.injEq] at hfiles
        obtain ⟨hmade, hmade', hrest⟩ := hfiles
        by_cases hne : made.1 = made'.1
        · refine ⟨made :: made' :: told, r', ?_, .cons first (.cons second chain), .rfl, .refl _⟩
          rw [List.map_cons, List.map_cons, hrest, hmade', ← hmade, hne, hmade']
        · have hsub : told.map (·.1) ⊆ f :: g :: rest := by
            rw [hrest]
            exact List.Subset.trans (List.subset_cons_self _ _) (List.subset_cons_self _ _)
          obtain ⟨r₂, hchain, hsame⟩ := Ends.chain_swap ready (by simp [← hmade])
            (by simp [← hmade']) hsub hne first second chain
          exact ⟨made' :: made :: told, r₂, by rw [List.map_cons, List.map_cons, hrest, hmade, hmade'],
            hchain, .swap made' made told, hsame⟩
  | @trans files₁ files₂ files₃ hperm _ ih ih' =>
    obtain ⟨told', r₂, hfiles', hchain, htold, hsame⟩ := ih ready hfiles h
    have hready := ready.mono hperm.symm.subset
    obtain ⟨told'', r₃, hfiles'', hchain', htold', hsame'⟩ := ih' hready hfiles' hchain
    exact ⟨told'', r₃, hfiles'', hchain', htold.trans htold', hsame.trans hsame'⟩

/-! ## The run -/

/-- Take in what a file came to. -/
def Progress.take (p : Progress) (made : String × Outcome Datum) : Progress :=
  if made.2.isError then p.fail made.1 made.2.error else p.succeed made.2

/-- The files of a run, each with what it came to, and the outcome of the run. -/
structure Told (s : Settings) (runId : String) (d : Disk) (files : List String)
    (told : List (String × Outcome Datum)) (o : Outcome Value) (r : Running Disk) : Prop where
  files : told.map (·.1) = files
  chain : Chain (Ends s runId) ⟨[], d⟩ told r
  concludes : o = (told.foldl Progress.take {}).conclude

theorem migrateFrom_told (patient : s.flag .failFast = false) {p : Progress} {o : Outcome Value}
    (h : Leaves (migrateFrom s runId files p) r (.ok o) r') :
    ∃ told, told.map (·.1) = files ∧ Chain (Ends s runId) r told r' ∧
      o = (told.foldl Progress.take p).conclude := by
  induction files generalizing p r with
  | nil =>
    obtain ⟨ho, rfl⟩ := h.pure
    cases ho
    exact ⟨[], rfl, .nil _, rfl⟩
  | cons file rest ih =>
    obtain ⟨made, t, hfile, hrest⟩ := h.bind_ok
    have hnext : Leaves (migrateFrom s runId rest (p.take (file, made))) t (.ok o) r' := by
      rw [patient] at hrest
      unfold Progress.take
      cases herror : made.isError with
      | true =>
        rw [herror] at hrest
        exact hrest
      | false =>
        rw [herror] at hrest
        exact hrest
    obtain ⟨told, hfiles, hchain, ho⟩ := ih hnext
    exact ⟨(file, made) :: told, by rw [List.map_cons, hfiles], .cons hfile hchain, ho⟩

theorem migrateFrom_of_told (patient : s.flag .failFast = false)
    {told : List (String × Outcome Datum)} (h : Chain (Ends s runId) r told r') (p : Progress) :
    Leaves (migrateFrom s runId (told.map (·.1)) p) r
      (.ok (told.foldl Progress.take p).conclude) r' := by
  induction h generalizing p with
  | nil r => rfl
  | @cons made rest r t u first chain ih =>
    have hnext := ih (p.take made)
    unfold Leaves
    rw [List.map_cons, migrateFrom, Leaves.of_bind_ok first, patient]
    unfold Progress.take at hnext
    rw [List.foldl_cons]
    unfold Progress.take
    cases herror : made.2.isError with
    | true =>
      rw [herror] at hnext
      exact hnext
    | false =>
      rw [herror] at hnext
      exact hnext

/-! ### The status -/

namespace Progress

/-- Progress that shows the same: whether anything was written, failed or warned of. -/
structure Alike (p q : Progress) : Prop where
  written : p.written = [] ↔ q.written = []
  failed : p.failed = [] ↔ q.failed = []
  warnings : p.warnings = [] ↔ q.warnings = []

@[simp] theorem written_fail (p : Progress) (file : String) (error : Option Failure) :
    (p.fail file error).written = p.written := rfl

@[simp] theorem warnings_fail (p : Progress) (file : String) (error : Option Failure) :
    (p.fail file error).warnings = p.warnings := rfl

theorem taken_nil (p : Progress) (told : List (String × Outcome Datum)) :
    ((told.foldl take p).written = [] ↔ p.written = [] ∧ ∀ m ∈ told, m.2.isError = true) ∧
    ((told.foldl take p).failed = [] ↔ p.failed = [] ∧ ∀ m ∈ told, m.2.isError = false) ∧
    ((told.foldl take p).warnings = [] ↔
      p.warnings = [] ∧ ∀ m ∈ told, m.2.isError = false → m.2.warnings = []) := by
  induction told generalizing p with
  | nil => simp
  | cons made rest ih =>
    obtain ⟨hwritten, hfailed, hwarnings⟩ := ih (p.take made)
    rw [List.foldl_cons, hwritten, hfailed, hwarnings]
    unfold take
    cases herror : made.2.isError with
    | true =>
      rw [if_pos rfl]
      simp [herror, failed_fail]
    | false =>
      rw [if_neg Bool.false_ne_true]
      simp [herror, succeed, and_assoc]

/-- The status of a run depends on what its progress shows. -/
theorem Alike.status {p q : Progress} (h : Alike p q) : p.conclude.status = q.conclude.status := by
  have hstatus : ∀ p : Progress, p.conclude.status =
      if p.failed ≠ [] ∧ p.written = [] then .error
      else if p.warnings = [] ∧ p.failed = [] then .success else .warning := by
    intro p
    unfold conclude
    split
    · rename_i file text rest hfailed hwritten
      rw [if_pos ⟨by simp [hfailed], hwritten⟩]
      rfl
    · rename_i hno
      rw [if_neg, Outcome.status_settled]
      · simp [failureLines]
      · rintro ⟨hfailed, hwritten⟩
        obtain ⟨f, rest, hf⟩ := List.exists_cons_of_ne_nil hfailed
        exact hno f.1 f.2 rest hf hwritten
  rw [hstatus, hstatus]
  simp only [ne_eq, h.written, h.failed, h.warnings]

theorem alike_of_perm {told told' : List (String × Outcome Datum)} (h : told.Perm told') :
    Alike (told.foldl take {}) (told'.foldl take {}) := by
  obtain ⟨hwritten, hfailed, hwarnings⟩ := taken_nil {} told
  obtain ⟨hwritten', hfailed', hwarnings'⟩ := taken_nil {} told'
  refine ⟨?_, ?_, ?_⟩
  · rw [hwritten, hwritten']
    simp only [h.mem_iff]
  · rw [hfailed, hfailed']
    simp only [h.mem_iff]
  · rw [hwarnings, hwarnings']
    simp only [h.mem_iff]

end Progress

/-- In another order a run comes to the same. It comes to an end as well; every file comes to what it
came to before, with its target and its code or with its error; the disk that is left cannot be told
from the other, and the status is the same. -/
theorem migrate_reordered {files' : List String} {o : Outcome Value} (reordered : files.Perm files')
    (ready : Ready s d files) (patient : s.flag .failFast = false)
    (ends : (migrate files s runId).run d = (.ok o, r)) :
    ∃ told o' told' r', Told s runId d files told o r ∧
      (migrate files' s runId).run d = (.ok o', r') ∧ Told s runId d files' told' o' r' ∧
      told.Perm told' ∧ r.state.Same r'.state ∧ o.status = o'.status := by
  obtain ⟨told, hfiles, hchain, ho⟩ := migrateFrom_told patient (leaves_of_run ends)
  obtain ⟨told', r', hfiles', hchain', htold, hsame⟩ :=
    Ends.chain_perm reordered (r := ⟨[], d⟩) ready hfiles hchain
  have hrun := migrateFrom_of_told patient hchain' {}
  rw [hfiles'] at hrun
  refine ⟨told, _, told', r', ⟨hfiles, hchain, ho⟩, run_of_leaves hrun, ⟨hfiles', hchain', rfl⟩,
    htold, hsame, ?_⟩
  rw [ho]
  exact (Progress.alike_of_perm htold).status

/-- Of files in two directories with targets in a third, which the first of them makes. -/
theorem migrate_reordered_into_one : ∃ o r told o' told' r',
    (migrate ["a/x.js", "b/y.js"] intoOne "run").run twins = (.ok o, r) ∧
      Told intoOne "run" twins ["a/x.js", "b/y.js"] told o r ∧
      (migrate ["b/y.js", "a/x.js"] intoOne "run").run twins = (.ok o', r') ∧
      Told intoOne "run" twins ["b/y.js", "a/x.js"] told' o' r' ∧
      told.Perm told' ∧ r.state.Same r'.state ∧ o.status = o'.status := by
  obtain ⟨o, r, hrun, -⟩ := exists_succeeds verdict_intoOne
  have ready : Ready intoOne twins ["a/x.js", "b/y.js"] := by
    refine ⟨Disk.inside_of_items ?_, rfl, by decide +kernel, by decide +kernel, ?_⟩
    · intro e he
      simp only [twins, List.mem_cons, List.not_mem_nil, or_false] at he
      rcases he with rfl | rfl | rfl | rfl | rfl | rfl <;> rfl
    · intro page hpage
      cases hpage
  obtain ⟨told, o', told', r', htold, hrun', htold', hperm, hsame, hstatus⟩ :=
    migrate_reordered (.swap "b/y.js" "a/x.js" []) ready rfl hrun
  exact ⟨o, r, told, o', told', r', hrun, htold, hrun', htold', hperm, hsame, hstatus⟩

/-- Two sources beside each other. -/
def neighbours : Disk where
  items := [(["w"], .directory), (["w", "a.js"], .file "a.first();\n".toUTF8),
    (["w", "b.js"], .file "b.first();\n".toUTF8)]
  cwd := ["w"]

/-- Targets go into a directory that is not there yet. -/
def intoNew : Settings := Settings.standard.put .targetRoot (.text "newdir")

/-- No path of a file is a path of another or lies under one. -/
def KeepApart (s : Settings) (cwd : Route) (files : List String) : Prop :=
  ∀ f ∈ files, ∀ g ∈ files, f ≠ g →
    ∀ p ∈ [sourcePlace cwd f, targetPlace cwd s f, copyPlace cwd s f],
      ∀ q ∈ [sourcePlace cwd g, targetPlace cwd s g, copyPlace cwd s g], ¬ p <+: q

instance (s : Settings) (cwd : Route) (files : List String) : Decidable (KeepApart s cwd files) :=
  inferInstanceAs (Decidable (∀ f ∈ files, ∀ g ∈ files, f ≠ g → ∀ p ∈ _, ∀ q ∈ _, ¬ p <+: q))

/-- Files that keep apart, and still the order matters. A path that leads back out of a directory leads
nowhere until another file has made the directory, so that one is migrated only if it comes last. And a
path that no disk is asked for ends the run, so what comes after it is not migrated. -/
theorem order_matters :
    intoNew.text? .snapshotFile = none ∧ intoNew.flag .failFast = false ∧
      (KeepApart intoNew ["w"] ["newdir/../a.js", "b.js"] ∧
        verdict ((migrate ["newdir/../a.js", "b.js"] intoNew "run").run neighbours).1 =
          some (false, true) ∧
        verdict ((migrate ["b.js", "newdir/../a.js"] intoNew "run").run neighbours).1 =
          some (false, false) ∧
        ((migrate ["newdir/../a.js", "b.js"] intoNew "run").run neighbours).2.state.exists?
          "newdir/a.js" = false ∧
        ((migrate ["b.js", "newdir/../a.js"] intoNew "run").run neighbours).2.state.exists?
          "newdir/a.js" = true) ∧
      KeepApart intoNew ["w"] ["a.js", "b\x00.js"] ∧
        verdict ((migrate ["a.js", "b\x00.js"] intoNew "run").run neighbours).1 = none ∧
        ((migrate ["a.js", "b\x00.js"] intoNew "run").run neighbours).2.state.exists?
          "newdir/a.js" = true ∧
        ((migrate ["b\x00.js", "a.js"] intoNew "run").run neighbours).2.state.exists?
          "newdir/a.js" = false := by
  decide +kernel

end Migration

end TestMigration
