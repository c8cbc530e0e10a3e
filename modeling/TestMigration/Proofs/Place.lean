import TestMigration.Files.Disk

/-! Places and what stands there. A path leads to the place that it names: following it name by
name and resolving it on paper come to the same. A disk gains items when everything stays where
it stood and whatever is new stands where nothing stood before. -/

namespace TestMigration

/-! ## Paths on paper -/

/-- The place that a path names, whatever stands on the way there. -/
def placeOf (cwd : Route) (path : String) : Route :=
  ((PathName.ofString path).resolve ⟨1, cwd⟩).parts

/-- One part further along a path; `up` leads back. -/
def stepOn {α : Type} [DecidableEq α] (up : α) (p : List α) (part : α) : List α :=
  if part = up then p.dropLast else p ++ [part]

section Steps

variable {α : Type} [DecidableEq α] {up : α}

/-- From the root on, cancelling double dots is walking part by part. -/
theorem cancelUps_walk [BEq α] [LawfulBEq α] (up : α) (parts : List α) :
    cancelUps up true parts = parts.foldl (stepOn up) [] := by
  -- the parts kept so far are a reversed path on which no double dot is left
  have hwalk : ∀ (f : List α → α → List α), (∀ kept part, up ∉ kept →
      (f kept part).reverse = stepOn up kept.reverse part ∧ up ∉ f kept part) → ∀ kept, up ∉ kept →
      (parts.foldl f kept).reverse = parts.foldl (stepOn up) kept.reverse := by
    intro f hf
    induction parts with
    | nil => exact fun _ _ => rfl
    | cons part parts ih =>
      intro kept hkept
      obtain ⟨hstep, hrest⟩ := hf kept part hkept
      rw [List.foldl_cons, List.foldl_cons, ih _ hrest, hstep]
  refine hwalk _ ?_ [] List.not_mem_nil
  intro kept part hkept
  by_cases hpart : part = up
  · subst hpart
    cases kept with
    | nil => simp [stepOn]
    | cons last rest =>
      have hlast : last ≠ part := fun e => hkept (e ▸ List.mem_cons_self)
      have hrest : part ∉ rest := fun e => hkept (List.mem_cons_of_mem _ e)
      simp [stepOn, hlast, hrest]
  · simp [stepOn, hpart, hkept, Ne.symm hpart]

theorem foldl_stepOn_of_no_ups {parts : List α} (h : up ∉ parts) (p : List α) :
    parts.foldl (stepOn up) p = p ++ parts := by
  induction parts generalizing p with
  | nil => simp
  | cons part parts ih =>
    have hpart : part ≠ up := fun e => h (e ▸ List.mem_cons_self)
    have hparts : up ∉ parts := fun e => h (List.mem_cons_of_mem _ e)
    rw [List.foldl_cons, ih hparts]
    simp [stepOn, hpart]

/-- What is on the way at the end was there before or is one of the parts, and leads on. -/
theorem mem_foldl_stepOn {parts p : List α} {part : α} (h : part ∈ parts.foldl (stepOn up) p) :
    part ∈ p ∨ part ∈ parts ∧ part ≠ up := by
  induction parts generalizing p with
  | nil => exact .inl h
  | cons first parts ih =>
    rcases ih h with hmem | ⟨hmem, hne⟩
    · unfold stepOn at hmem
      split at hmem
      · exact .inl (List.dropLast_subset _ hmem)
      · rename_i hfirst
        rcases List.mem_append.mp hmem with hmem | hmem
        · exact .inl hmem
        · obtain rfl := List.mem_singleton.mp hmem
          exact .inr ⟨List.mem_cons_self, hfirst⟩
    · exact .inr ⟨List.mem_cons_of_mem _ hmem, hne⟩

end Steps

/-- One name further from a place. -/
def Route.step (p : Route) (name : String) : Route :=
  if name = ".." then p.dropLast else p ++ [name]

theorem cancelUps_rooted (names : List String) :
    cancelUps ".." true names = names.foldl Route.step [] := cancelUps_walk ".." names

theorem walk_of_no_ups (names : Route) (h : ".." ∉ names) (p : Route) :
    names.foldl Route.step p = p ++ names := foldl_stepOn_of_no_ups h p

theorem isAbsolute_ofString (path : String) :
    (PathName.ofString path).isAbsolute = path.startsWith "/" := by
  have hhead : path.startsWith "/" = true ↔ ['/'] <+: path.toList := String.startsWith_string_iff
  rw [Bool.eq_iff_iff, hhead]
  unfold PathName.isAbsolute PathName.ofString leadingSlashes
  cases path.toList with
  | nil => simp
  | cons c rest =>
    by_cases hc : c = '/'
    · subst hc
      rw [List.takeWhile_cons_of_pos (by simp)]
      simp only [bne_iff_ne, List.length_cons, List.prefix_cons_inj, List.nil_prefix, iff_true]
      split <;> simp_all
    · simp [hc, Ne.symm hc]

theorem isAbsolute_join {p q : PathName} (hp : p.isAbsolute = true) : (p.join q).isAbsolute = true := by
  unfold PathName.join
  split
  · assumption
  · exact hp

theorem mem_parts_join {p q : PathName} {part : String} (h : part ∈ (p.join q).parts) :
    part ∈ p.parts ∨ part ∈ q.parts := by
  unfold PathName.join at h
  split at h
  · exact .inr h
  · exact List.mem_append.mp h

/-- The working directory is itself a place: no double dot is among its names. -/
theorem placeOf_eq_walk {cwd : Route} (h : ".." ∉ cwd) (path : String) :
    placeOf cwd path =
      (PathName.ofString path).parts.foldl Route.step (if path.startsWith "/" then [] else cwd) := by
  have hroot : (PathName.join ⟨1, cwd⟩ (PathName.ofString path)).isAbsolute = true := isAbsolute_join rfl
  unfold placeOf PathName.resolve PathName.absolute
  dsimp only
  rw [hroot, cancelUps_rooted]
  unfold PathName.join
  rw [isAbsolute_ofString]
  split
  · rfl
  · rw [List.foldl_append, walk_of_no_ups cwd h]
    rfl

theorem resolve_eq_iff {cwd : Route} {a b : String} :
    (PathName.ofString a).resolve ⟨1, cwd⟩ = (PathName.ofString b).resolve ⟨1, cwd⟩ ↔
      placeOf cwd a = placeOf cwd b := by
  unfold placeOf PathName.resolve
  constructor
  · intro h
    exact congrArg PathName.parts h
  · intro h
    dsimp only at h ⊢
    rw [h]

namespace Disk

/-! ## What stands where -/

@[simp] theorem get?_root (d : Disk) : d.get? [] = some .directory := rfl

@[simp] theorem cwd_put (d : Disk) (p : Route) (item : Item) : (d.put p item).cwd = d.cwd := rfl

/-- Whatever stands somewhere is an item of the disk, but for the root. -/
theorem mem_of_get? {d : Disk} {p : Route} {item : Item} (h : d.get? p = some item) (hp : p ≠ []) :
    (p, item) ∈ d.items := by
  unfold get? at h
  rw [if_neg (by simpa using hp)] at h
  obtain ⟨entry, hfind, hitem⟩ := Option.map_eq_some_iff.mp h
  have hplace : entry.1 = p := by simpa using List.find?_some hfind
  rw [← hplace, ← hitem]
  exact List.mem_of_find?_eq_some hfind

theorem mem_of_file {d : Disk} {p : Route} {bytes : ByteArray}
    (h : d.get? p = some (.file bytes)) : (p, .file bytes) ∈ d.items := by
  refine mem_of_get? h ?_
  rintro rfl
  cases h

theorem get?_put {p : Route} (h : p ≠ []) (d : Disk) (item : Item) (q : Route) :
    (d.put p item).get? q = if q = p then some item else d.get? q := by
  by_cases hroot : q = []
  · subst hroot
    rw [get?_root, get?_root, if_neg (Ne.symm h)]
  have hq : q.isEmpty = false := by simpa using hroot
  unfold get? put
  simp only [hq, Bool.false_eq_true, if_false]
  by_cases hany : d.items.any (·.1 == p)
  · -- the entry keeps its key, so the same entry is found, with its item replaced
    have hkey : ((fun e : Route × Item => e.1 == q) ∘ fun e => if e.1 == p then (p, item) else e) =
        fun e => e.1 == q := by
      funext e
      by_cases he : e.1 = p
      · simp [he]
      · simp [he]
    rw [if_pos hany, List.find?_map, hkey]
    cases hf : d.items.find? fun e => e.1 == q with
    | none =>
      have hqp : q ≠ p := by
        rintro rfl
        rw [List.find?_eq_none] at hf
        simp only [List.any_eq_true] at hany
        obtain ⟨e, he, hp⟩ := hany
        exact hf e he hp
      simp [hqp]
    | some e =>
      have he : e.1 = q := by simpa using List.find?_some hf
      by_cases hqp : q = p
      · simp [he, hqp]
      · simp [he, hqp]
  · rw [if_neg hany, List.find?_append]
    by_cases hqp : q = p
    · subst hqp
      have hf : d.items.find? (fun e => e.1 == q) = none := by
        rw [List.find?_eq_none]
        intro e he hp
        exact hany (List.any_eq_true.mpr ⟨e, he, hp⟩)
      simp [hf]
    · have hf : [(p, item)].find? (fun e => e.1 == q) = none := by simp [Ne.symm hqp]
      rw [hf, Option.or_none, if_neg hqp]

theorem get?_put_self {p : Route} (h : p ≠ []) (d : Disk) (item : Item) :
    (d.put p item).get? p = some item := by rw [get?_put h, if_pos rfl]

theorem get?_put_of_ne {p q : Route} (h : p ≠ []) (hne : q ≠ p) (d : Disk) (item : Item) :
    (d.put p item).get? q = d.get? q := by rw [get?_put h, if_neg hne]

/-! ## Following a path -/

/-- Names that are skipped when a path is read are skipped when it is followed. -/
theorem follow_walk {d : Disk} {names : List String} {p r : Route} (h : d.follow p names = .ok r) :
    r = (names.filter fun part => part != "" && part != ".").foldl Route.step p := by
  induction names generalizing p with
  | nil =>
    cases h
    rfl
  | cons name names ih =>
    unfold follow at h
    split at h
    · cases h
    · cases h
    · by_cases hskip : name = "" ∨ name = "."
      · have hfilter : (name != "" && name != ".") = false := by
          rcases hskip with rfl | rfl <;> rfl
        rw [if_pos (by simpa using hskip)] at h
        rw [List.filter_cons_of_neg (by simp [hfilter])]
        exact ih h
      · rw [if_neg (by simpa using hskip)] at h
        rw [List.filter_cons_of_pos (by simpa using hskip), List.foldl_cons]
        by_cases hup : name = ".."
        · rw [if_pos (by simpa using hup)] at h
          rw [show Route.step p name = p.dropLast by simp [Route.step, hup]]
          exact ih h
        · rw [if_neg (by simpa using hup)] at h
          rw [show Route.step p name = p ++ [name] by simp [Route.step, hup]]
          split at h
          · cases h
          · exact ih h

theorem find_ok {d : Disk} {path : String} {p : Route} (h : d.find path = .ok p) :
    d.follow (if path.startsWith "/" then [] else d.cwd) (slashParts path) = .ok p := by
  unfold find at h
  split at h
  · cases h
  split at h
  · cases h
  split at h
  · cases h
  exact h

/-- A path that can be followed leads to the place that it names. -/
theorem find_place {d : Disk} (hcwd : ".." ∉ d.cwd) {path : String} {p : Route}
    (h : d.find path = .ok p) : p = placeOf d.cwd path := by
  rw [placeOf_eq_walk hcwd]
  exact follow_walk (find_ok h)

/-- Following a path only asks for directories on the way. -/
theorem follow_mono {d d' : Disk} (h : ∀ p, d.get? p = some .directory → d'.get? p = some .directory)
    {names : List String} {p r : Route} (hf : d.follow p names = .ok r) : d'.follow p names = .ok r := by
  induction names generalizing p with
  | nil => exact hf
  | cons name names ih =>
    unfold follow at hf ⊢
    split at hf
    · cases hf
    · cases hf
    · rename_i hdir
      rw [h p hdir]
      dsimp only
      split
      · rename_i hskip
        rw [if_pos hskip] at hf
        exact ih hf
      rename_i hskip
      rw [if_neg hskip] at hf
      split
      · rename_i hup
        rw [if_pos hup] at hf
        exact ih hf
      rename_i hup
      rw [if_neg hup] at hf
      split at hf
      · cases hf
      rename_i hlong
      rw [if_neg hlong]
      exact ih hf

theorem find_of_isFile {d : Disk} {path : String} (h : d.isFile path = true) :
    ∃ p bytes, d.find path = .ok p ∧ d.get? p = some (.file bytes) := by
  unfold isFile item? at h
  cases hp : d.find path with
  | error f =>
    rw [hp] at h
    cases h
  | ok p =>
    rw [hp] at h
    simp only [Except.toOption, Option.bind_some] at h
    split at h
    · rename_i bytes hitem
      exact ⟨p, bytes, rfl, hitem⟩
    · cases h

theorem find_mono {d d' : Disk} (hcwd : d'.cwd = d.cwd)
    (h : ∀ p, d.get? p = some .directory → d'.get? p = some .directory) {path : String} {p : Route}
    (hf : d.find path = .ok p) : d'.find path = .ok p := by
  unfold find at hf ⊢
  split
  · rename_i hempty
    rw [if_pos hempty] at hf
    cases hf
  rename_i hempty
  rw [if_neg hempty] at hf
  split
  · rename_i hzero
    rw [if_pos hzero] at hf
    cases hf
  rename_i hzero
  rw [if_neg hzero] at hf
  split
  · rename_i hlong
    rw [if_pos hlong] at hf
    cases hf
  rename_i hlong
  rw [if_neg hlong] at hf
  rw [hcwd]
  exact follow_mono h hf

/-! ## Gains -/

/-- Everything stays where it stood. A file that is new stands where nothing stood before, and
is one of the files that `New` allows there. -/
structure Gains (New : Route → ByteArray → Prop) (d d' : Disk) : Prop where
  cwd : d'.cwd = d.cwd
  stays : ∀ {p item}, d.get? p = some item → d'.get? p = some item
  new : ∀ {p bytes}, d'.get? p = some (.file bytes) →
    d.get? p = some (.file bytes) ∨ d.get? p = none ∧ New p bytes

namespace Gains

variable {New : Route → ByteArray → Prop} {d d' d'' : Disk}

theorem refl (d : Disk) : Gains New d d := ⟨rfl, fun h => h, .inl⟩

theorem trans (h : Gains New d d') (h' : Gains New d' d'') : Gains New d d'' where
  cwd := h'.cwd.trans h.cwd
  stays hp := h'.stays (h.stays hp)
  new hp := by
    rcases h'.new hp with hp | ⟨hnone, hnew⟩
    · exact h.new hp
    · refine .inr ⟨?_, hnew⟩
      cases hd : d.get? _ with
      | none => rfl
      | some item =>
        rw [h.stays hd] at hnone
        cases hnone

theorem mono {New' : Route → ByteArray → Prop} (h : Gains New d d')
    (hNew : ∀ p bytes, New p bytes → New' p bytes) : Gains New' d d' where
  cwd := h.cwd
  stays := h.stays
  new hp := (h.new hp).imp_right fun hn => ⟨hn.1, hNew _ _ hn.2⟩

/-- An item is put where nothing stood. -/
theorem put_fresh {p : Route} {item : Item} (hp : d.get? p = none)
    (hnew : ∀ bytes, item = .file bytes → New p bytes) : Gains New d (d.put p item) := by
  have hroot : p ≠ [] := by
    rintro rfl
    cases hp
  refine ⟨rfl, ?_, ?_⟩
  · intro q there hq
    have hne : q ≠ p := by
      rintro rfl
      rw [hp] at hq
      cases hq
    rwa [get?_put_of_ne hroot hne]
  · intro q bytes hq
    rw [get?_put hroot] at hq
    split at hq
    · rename_i he
      subst he
      exact .inr ⟨hp, hnew bytes (Option.some.inj hq)⟩
    · exact .inl hq

theorem put_directory {p : Route} (hp : d.get? p = none) : Gains New d (d.put p .directory) :=
  put_fresh hp nofun

theorem put_file {p : Route} {bytes : ByteArray} (hp : d.get? p = none) (hnew : New p bytes) :
    Gains New d (d.put p (.file bytes)) := by
  refine put_fresh hp fun bytes' hbytes => ?_
  cases hbytes
  exact hnew

end Gains

end Disk

end TestMigration
