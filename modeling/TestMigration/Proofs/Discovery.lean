import TestMigration.Proofs.Batch

/-! What a search lists and keeps. A search reads only; it comes to a list when each file that it
lists can be judged, and the list holds those that are kept. -/

namespace TestMigration

/-- On this disk the operation gives an answer, and the disk is left as it is. -/
def Filing.Answers {α : Type} (m : Filing α) (d : Disk) : Prop := ∃ a, Leaves m d (.ok a) d

namespace Filing

variable {α β : Type} {d : Disk}

theorem Reads.answers {m : Filing α} {a : α} {d' : Disk} (hm : Reads m)
    (h : Leaves m d (.ok a) d') : Answers m d := by
  cases hm d _ d' h
  exact ⟨a, h⟩

/-- The answer, if there is one. -/
def answer? (m : Filing α) (d : Disk) : Option α :=
  match m d with
  | .ok a _ => some a
  | .error _ _ => none

theorem Reads.leaves_answer {m : Filing α} {a : α} (hm : Reads m) (h : answer? m d = some a) :
    Leaves m d (.ok a) d := by
  unfold answer? at h
  cases hrun : m d with
  | ok b d' =>
    rw [hrun] at h
    cases h
    cases hm d (.ok a) d' hrun
    exact hrun
  | error e d' =>
    rw [hrun] at h
    cases h

/-- A list of answers holds the answer of each. -/
theorem mapM_ofExcept {f : α → Except Failure β} {g : α → β} {as : List α}
    (h : ∀ a ∈ as, f a = .ok (g a)) :
    Leaves (as.mapM fun a => (MonadExcept.ofExcept (f a) : Filing β)) d (.ok (as.map g)) d := by
  induction as with
  | nil => rfl
  | cons first rest ih =>
    have hfirst : Leaves (MonadExcept.ofExcept (f first) : Filing β) d (.ok (g first)) d := by
      rw [h first List.mem_cons_self]
      rfl
    have hrest := ih fun a ha => h a (List.mem_cons_of_mem _ ha)
    unfold Leaves
    rw [List.mapM_cons, hfirst.of_bind_ok, hrest.of_bind_ok]
    rfl

/-- Where each entry can be judged, those that are judged well are kept. -/
theorem filterM_answers {f : α → Filing Bool} {as : List α} (h : ∀ a ∈ as, Answers (f a) d) :
    ∃ kept, Leaves (as.filterM f) d (.ok kept) d ∧
      ∀ a, a ∈ kept ↔ a ∈ as ∧ Leaves (f a) d (.ok true) d := by
  have hloop : ∀ as acc : List α, (∀ a ∈ as, Answers (f a) d) →
      ∃ kept, Leaves (List.filterAuxM f as acc) d (.ok kept) d ∧
        ∀ a, a ∈ kept ↔ (a ∈ as ∧ Leaves (f a) d (.ok true) d) ∨ a ∈ acc := by
    intro as
    induction as with
    | nil => exact fun acc _ => ⟨acc, rfl, by simp⟩
    | cons first rest ih =>
      intro acc h
      obtain ⟨judged, hfirst⟩ := h first List.mem_cons_self
      obtain ⟨kept, hkept, hmem⟩ := ih (bif judged then first :: acc else acc)
        fun a ha => h a (List.mem_cons_of_mem _ ha)
      refine ⟨kept, hfirst.of_bind_ok.trans hkept, fun a => ?_⟩
      rw [hmem, List.mem_cons]
      cases judged with
      | true =>
        rw [cond_true, List.mem_cons]
        constructor
        · rintro (⟨ha, hgood⟩ | rfl | hacc)
          · exact .inl ⟨.inr ha, hgood⟩
          · exact .inl ⟨.inl rfl, hfirst⟩
          · exact .inr hacc
        · rintro (⟨rfl | ha, hgood⟩ | hacc)
          · exact .inr (.inl rfl)
          · exact .inl ⟨ha, hgood⟩
          · exact .inr (.inr hacc)
      | false =>
        rw [cond_false]
        constructor
        · rintro (⟨ha, hgood⟩ | hacc)
          · exact .inl ⟨.inr ha, hgood⟩
          · exact .inr hacc
        · rintro (⟨rfl | ha, hgood⟩ | hacc)
          · cases (hfirst.unique hgood).1
          · exact .inl ⟨ha, hgood⟩
          · exact .inr hacc
  obtain ⟨kept, hkept, hmem⟩ := hloop as [] h
  refine ⟨kept.reverse, hkept.of_bind_ok, fun a => ?_⟩
  rw [List.mem_reverse, hmem]
  simp

/-- A list that has been filtered has had each entry judged. -/
theorem answers_of_filterM {f : α → Filing Bool} (hf : ∀ a, Reads (f a)) {as kept : List α}
    {d' : Disk} (h : Leaves (as.filterM f) d (.ok kept) d') : ∀ a ∈ as, Answers (f a) d := by
  have hloop : ∀ as acc kept t, Leaves (List.filterAuxM f as acc) d (.ok kept) t →
      ∀ a ∈ as, Answers (f a) d := by
    intro as
    induction as with
    | nil =>
      intro acc kept t _ a ha
      cases ha
    | cons first rest ih =>
      intro acc kept t h a ha
      obtain ⟨judged, u, hfirst, hrest⟩ := h.bind_ok
      cases hf first d _ u hfirst
      rcases List.mem_cons.mp ha with rfl | ha
      · exact ⟨judged, hfirst⟩
      · exact ih _ _ _ hrest a ha
  obtain ⟨reversed, t, hkept, -⟩ := h.bind_ok
  exact hloop as [] reversed t hkept

end Filing

namespace Discovery

theorem mem_distinct {α : Type} [BEq α] [LawfulBEq α] {xs : List α} {x : α} :
    x ∈ distinct xs ↔ x ∈ xs := by
  have hloop : ∀ xs seen : List α,
      x ∈ xs.foldl (fun seen x => if seen.contains x then seen else x :: seen) seen ↔
        x ∈ xs ∨ x ∈ seen := by
    intro xs
    induction xs with
    | nil => simp
    | cons first rest ih =>
      intro seen
      rw [List.foldl_cons, ih, List.mem_cons]
      by_cases hseen : first ∈ seen
      · rw [if_pos (List.contains_iff_mem.mpr hseen)]
        constructor
        · rintro (hrest | hx)
          · exact .inl (.inr hrest)
          · exact .inr hx
        · rintro ((rfl | hrest) | hx)
          · exact .inr hseen
          · exact .inl hrest
          · exact .inr hx
      · rw [if_neg (mt List.contains_iff_mem.mp hseen), List.mem_cons, or_left_comm, or_assoc]
  unfold distinct
  rw [List.mem_reverse, hloop]
  simp

/-! ## The search below a directory -/

variable {d : Disk} {s : Settings} {directory : PathName}

/-- What the search lists for a pattern; nothing for one that it does not take. -/
def listed (d : Disk) (directory : PathName) (s : Settings) (pattern : String) : List PathName :=
  ((d.search directory (s.flag .recurse) pattern).toOption).getD []

/-- The search takes the pattern. -/
def Taken (s : Settings) (pattern : String) : Prop :=
  (PathName.ofString pattern).isAbsolute = false ∧
    (s.flag .recurse = true ∨ (PathName.ofString pattern).parts ≠ [])

theorem search_of_taken {pattern : String} (h : Taken s pattern) :
    d.search directory (s.flag .recurse) pattern = .ok (listed d directory s pattern) := by
  obtain ⟨hrelative, hparts⟩ := h
  have hnamed : ((PathName.ofString pattern).parts.isEmpty && !s.flag .recurse) = false := by
    rcases hparts with hrecurse | hparts
    · simp [hrecurse]
    · simp [hparts]
  unfold listed Disk.search
  dsimp only
  rw [hrelative, if_neg (by simp), if_neg (by simp [hnamed])]
  cases d.find (toString directory) with
  | error f => rfl
  | ok p => rfl

/-- Names that the search goes by for a pattern. -/
def partsFor (s : Settings) (pattern : String) : List String :=
  if s.flag .recurse then anyDepth :: (PathName.ofString pattern).parts
  else (PathName.ofString pattern).parts

theorem mem_listed {pattern : String} (h : Taken s pattern) {p : PathName} :
    p ∈ listed d directory s pattern ↔ ∃ place names, d.find (toString directory) = .ok place ∧
      names ∈ d.filesBelow place ∧ Disk.describes (partsFor s pattern) names = true ∧
      p = { directory with parts := directory.parts ++ names } := by
  have hsearch : d.search directory _ pattern = _ := search_of_taken h
  unfold Disk.search at hsearch
  dsimp only at hsearch
  split at hsearch
  · cases hsearch
  split at hsearch
  · cases hsearch
  split at hsearch
  · rename_i hfind
    rw [← Except.ok.inj hsearch, hfind]
    simp
  · rename_i place hfind
    rw [← Except.ok.inj hsearch, hfind]
    constructor
    · intro hp
      obtain ⟨names, hnames, rfl⟩ := List.mem_map.mp hp
      obtain ⟨hbelow, hdescribes⟩ := List.mem_filter.mp hnames
      exact ⟨place, names, rfl, hbelow, hdescribes, rfl⟩
    · rintro ⟨place', names, hplace, hbelow, hdescribes, rfl⟩
      cases hplace
      exact List.mem_map.mpr ⟨names, List.mem_filter.mpr ⟨hbelow, hdescribes⟩, rfl⟩

theorem search_leaves (hpatterns : ∀ pattern ∈ s.patterns, Taken s pattern) :
    Leaves (s.patterns.mapM fun pattern => (MonadExcept.ofExcept
      (d.search directory (s.flag .recurse) pattern) : Filing (List PathName))) d
      (.ok (s.patterns.map (listed d directory s))) d :=
  Filing.mapM_ofExcept fun pattern hpattern => search_of_taken (hpatterns pattern hpattern)

/-- The candidates of a search, in order. -/
theorem mem_candidates {le : PathName → PathName → Bool} {file : String} :
    file ∈ ((distinct (s.patterns.map (listed d directory s)).flatten).mergeSort le).map toString ↔
      ∃ pattern ∈ s.patterns, ∃ p ∈ listed d directory s pattern, toString p = file := by
  rw [List.mem_map]
  constructor
  · rintro ⟨p, hp, rfl⟩
    rw [List.mem_mergeSort, mem_distinct] at hp
    obtain ⟨list, hlist, hp⟩ := List.mem_flatten.mp hp
    obtain ⟨pattern, hpattern, rfl⟩ := List.mem_map.mp hlist
    exact ⟨pattern, hpattern, p, hp, rfl⟩
  · rintro ⟨pattern, hpattern, p, hp, rfl⟩
    refine ⟨p, ?_, rfl⟩
    rw [List.mem_mergeSort, mem_distinct]
    exact List.mem_flatten.mpr ⟨_, List.mem_map.mpr ⟨pattern, hpattern, rfl⟩, hp⟩

/-- The search comes to the candidates that are kept, if each can be judged. -/
theorem below_answers (hpatterns : ∀ pattern ∈ s.patterns, Taken s pattern)
    (h : ∀ pattern ∈ s.patterns, ∀ p ∈ listed d directory s pattern,
      (keeps s (toString p)).Answers d) :
    ∃ files, Leaves (below directory s) d (.ok files) d ∧
      ∀ file, file ∈ files ↔ (∃ pattern ∈ s.patterns, ∃ p ∈ listed d directory s pattern,
        toString p = file) ∧ Leaves (keeps s file) d (.ok true) d := by
  have hjudged : ∀ file ∈ ((distinct (s.patterns.map (listed d directory s)).flatten).mergeSort
      fun p q => partsLE p.parts q.parts).map toString, (keeps s file).Answers d := by
    intro file hfile
    obtain ⟨pattern, hpattern, p, hp, rfl⟩ := mem_candidates.mp hfile
    exact h pattern hpattern p hp
  obtain ⟨files, hfiles, hmem⟩ := Filing.filterM_answers hjudged
  refine ⟨files, ?_, fun file => ?_⟩
  · unfold Leaves below
    rw [(Leaves.of_get d).of_bind_ok, (search_leaves hpatterns).of_bind_ok]
    exact hfiles
  · rw [hmem, mem_candidates]

theorem below_answers_of_files {place : Route} (hpatterns : ∀ pattern ∈ s.patterns, Taken s pattern)
    (hplace : d.find (toString directory) = .ok place) (h : ∀ names ∈ d.filesBelow place,
      (keeps s (toString { directory with parts := directory.parts ++ names })).Answers d) :
    (below directory s).Answers d := by
  obtain ⟨files, hfiles, -⟩ := below_answers hpatterns fun pattern hpattern p hp => by
    obtain ⟨place', names, hplace', hnames, -, rfl⟩ := (mem_listed (hpatterns pattern hpattern)).mp hp
    cases hplace.symm.trans hplace'
    exact h names hnames
  exact ⟨files, hfiles⟩

/-- A search that has come to a list has judged each candidate. -/
theorem below_ok (hpatterns : ∀ pattern ∈ s.patterns, Taken s pattern) {files : List String}
    {d' : Disk} (h : Leaves (below directory s) d (.ok files) d') :
    (∀ pattern ∈ s.patterns, ∀ p ∈ listed d directory s pattern, (keeps s (toString p)).Answers d) ∧
      ∀ file, file ∈ files ↔ (∃ pattern ∈ s.patterns, ∃ p ∈ listed d directory s pattern,
        toString p = file) ∧ Leaves (keeps s file) d (.ok true) d := by
  have hjudged : ∀ pattern ∈ s.patterns, ∀ p ∈ listed d directory s pattern,
      (keeps s (toString p)).Answers d := by
    obtain ⟨found, t, hfound, hkept⟩ := h.get_bind.bind_ok
    obtain ⟨hsame, rfl⟩ := hfound.unique (search_leaves hpatterns)
    cases hsame
    intro pattern hpattern p hp
    exact Filing.answers_of_filterM (Migration.reads_keeps s) hkept _
      (mem_candidates.mpr ⟨pattern, hpattern, p, hp, rfl⟩)
  obtain ⟨files', hfiles', hmem⟩ := below_answers hpatterns hjudged
  cases (h.unique hfiles').1
  exact ⟨hjudged, hmem⟩

/-! ## The search by written patterns -/

/-- What a pattern stands for in a directory, or in it and the directories below it. -/
def expansion (d : Disk) (recurse : Bool) (dir pattern : String) : List String :=
  d.expand recurse (Disk.joinPath (if recurse then Disk.joinPath dir anyDepth else dir) pattern)

theorem mem_matching {dir path : String} {patterns : List String} {recurse : Bool} :
    path ∈ matching d dir patterns recurse ↔
      ∃ pattern ∈ patterns, path ∈ expansion d recurse dir pattern ∧ d.isFile path = true := by
  unfold matching
  rw [List.mem_mergeSort, mem_distinct, List.mem_flatMap]
  simp only [List.mem_filter]
  rfl

/-- The search in one directory comes to the files that are kept, if each can be judged. -/
theorem resolve_answers {dir : String} (hdir : d.isDirectory dir = true)
    (h : ∀ pattern ∈ s.patterns, ∀ path ∈ expansion d (s.flag .recurse) dir pattern,
      d.isFile path = true → (keeps s path).Answers d) :
    ∃ files, Leaves (resolve [dir] none s) d (.ok files) d ∧
      ∀ file, file ∈ files ↔ (∃ pattern ∈ s.patterns,
        file ∈ expansion d (s.flag .recurse) dir pattern ∧ d.isFile file = true) ∧
          Leaves (keeps s file) d (.ok true) d := by
  have hjudged : ∀ path ∈ matching d dir s.patterns (s.flag .recurse), (keeps s path).Answers d := by
    intro path hpath
    obtain ⟨pattern, hpattern, hpath, hfile⟩ := mem_matching.mp hpath
    exact h pattern hpattern path hpath hfile
  obtain ⟨kept, hkept, hmem⟩ := Filing.filterM_answers hjudged
  have hfile : d.isFile dir = false := by
    unfold Disk.isDirectory at hdir
    unfold Disk.isFile
    split at hdir
    · rename_i hitem
      rw [hitem]
    · cases hdir
  refine ⟨distinct kept, ?_, fun file => ?_⟩
  · have hdirectories : Leaves (List.mapM (fun directory =>
        (matching d directory s.patterns (s.flag .recurse)).filterM (keeps s)) [dir]) d
        (.ok [kept]) d := by
      unfold Leaves
      rw [List.mapM_cons, hkept.of_bind_ok]
      rfl
    unfold Leaves resolve
    rw [(Leaves.of_get d).of_bind_ok]
    dsimp only
    rw [List.filter_cons_of_pos hdir, List.filter_nil, List.nil_append, hdirectories.of_bind_ok,
      List.filter_cons_of_neg (by simp [hfile]), List.filter_nil, List.nil_append,
      List.flatten_singleton]
    rfl
  · rw [mem_distinct, hmem, mem_matching]

end Discovery

end TestMigration
