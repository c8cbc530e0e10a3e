import Mathlib.Data.List.Induction
import TestMigration.Proofs.Filing
import TestMigration.Proofs.Spelling

/-! Disks that have grown since they were last looked at. Migrations make directories and write files,
and take nothing away. So a path that led somewhere leads there still, and a path that led nowhere can
only have come to lead to where nothing stands, as long as what was missing of it is named plainly: a
double dot behind a missing directory begins to lead back once the directory is made. -/

namespace TestMigration

/-- Where names lead on paper, from a place on. -/
def Route.walk (p : Route) (names : List String) : Route := names.foldl Route.step p

/-- A name that leads one step down, and that something can have. -/
def PlainName (name : String) : Prop := name ≠ ".." ∧ name.utf8ByteSize ≤ 255

instance : DecidablePred PlainName := fun name =>
  inferInstanceAs (Decidable (name ≠ ".." ∧ name.utf8ByteSize ≤ 255))

namespace Route

@[simp] theorem walk_nil (p : Route) : p.walk [] = p := rfl

@[simp] theorem walk_cons (p : Route) (name : String) (rest : List String) :
    p.walk (name :: rest) = (p.step name).walk rest := rfl

theorem walk_append (p : Route) (names rest : List String) :
    p.walk (names ++ rest) = (p.walk names).walk rest := List.foldl_append

theorem step_plain {name : String} (h : PlainName name) (p : Route) : p.step name = p ++ [name] :=
  if_neg h.1

theorem walk_plain {names : List String} (h : ∀ name ∈ names, PlainName name) (p : Route) :
    p.walk names = p ++ names :=
  walk_of_no_ups names (fun hup => (h _ hup).1 rfl) p

end Route

theorem PathName.Proper.parent {p : PathName} (h : p.Proper) : p.parent.Proper :=
  fun part hpart => h part (List.dropLast_subset _ hpart)

namespace Disk

/-! ## What a disk holds -/

/-- Whatever stands on the disk stands in a directory. -/
def Inside (d : Disk) : Prop := ∀ p, d.get? p ≠ none → d.get? p.dropLast = some .directory

variable {d d' : Disk} {places : List Route} {p q r : Route} {names : List String}

theorem inside_of_items (h : ∀ e ∈ d.items, d.get? e.1.dropLast = some .directory) : d.Inside := by
  intro p hp
  by_cases hroot : p = []
  · rw [hroot]
    rfl
  · obtain ⟨item, hitem⟩ := Option.ne_none_iff_exists'.mp hp
    exact h _ (mem_of_get? hitem hroot)

/-- Directories lead to whatever stands on the disk. -/
theorem Inside.above (inside : d.Inside) (hq : d.get? (p ++ names) ≠ none) (hne : names ≠ []) :
    d.get? p = some .directory := by
  induction names using List.reverseRec with
  | nil => exact absurd rfl hne
  | append_singleton front last ih =>
    have hparent := inside _ hq
    rw [← List.append_assoc, List.dropLast_concat] at hparent
    by_cases hfront : front = []
    · rwa [hfront, List.append_nil] at hparent
    · exact ih (by simp [hparent]) hfront

/-- Where nothing stands, nothing stands below. -/
theorem Inside.below (inside : d.Inside) (hp : d.get? p = none) (names : List String) :
    d.get? (p ++ names) = none := by
  by_contra hq
  by_cases hnames : names = []
  · rw [hnames, List.append_nil] at hq
    exact hq hp
  · rw [inside.above hq hnames] at hp
    cases hp

theorem Inside.put (inside : d.Inside) {item : Item} (hparent : d.get? p.dropLast = some .directory)
    (hp : d.get? p ≠ some .directory) : (d.put p item).Inside := by
  have hroot : p ≠ [] := by
    rintro rfl
    exact hp rfl
  intro q hq
  by_cases hsame : q = p
  · have hne : p.dropLast ≠ p := by
      intro he
      rw [he] at hparent
      exact hp hparent
    rw [hsame, get?_put_of_ne hroot hne, hparent]
  · rw [get?_put_of_ne hroot hsame] at hq
    have hne : q.dropLast ≠ p := by
      rintro rfl
      exact hp (inside q hq)
    rw [get?_put_of_ne hroot hne, inside q hq]

/-! ## Growth -/

/-- What has changed between two disks: directories are new, each on the way to one of the places,
and some of the places have been given contents. -/
structure Grows (places : List Route) (d d' : Disk) : Prop where
  cwd : d'.cwd = d.cwd
  change : ∀ p, d'.get? p = d.get? p ∨
    (d.get? p = none ∧ d'.get? p = some .directory ∧ ∃ t ∈ places, p <+: t ∧ p ≠ t) ∨
    (p ∈ places ∧ d.get? p ≠ some .directory ∧ ∃ bytes, d'.get? p = some (.file bytes))

namespace Grows

theorem refl (places : List Route) (d : Disk) : Grows places d d := ⟨rfl, fun _ => .inl rfl⟩

theorem directory (h : Grows places d d') (hp : d.get? p = some .directory) :
    d'.get? p = some .directory := by
  rcases h.change p with he | ⟨hnone, -⟩ | ⟨-, hno, -⟩
  · rw [he, hp]
  · rw [hp] at hnone
    cases hnone
  · exact absurd hp hno

theorem file (h : Grows places d d') {bytes : ByteArray} (hp : d.get? p = some (.file bytes)) :
    ∃ bytes', d'.get? p = some (.file bytes') := by
  rcases h.change p with he | ⟨hnone, -⟩ | ⟨-, -, hfile⟩
  · exact ⟨bytes, by rw [he, hp]⟩
  · rw [hp] at hnone
    cases hnone
  · exact hfile

/-- What stands at none of the places stays. -/
theorem stays (h : Grows places d d') {item : Item} (hp : d.get? p = some item) (hno : p ∉ places) :
    d'.get? p = some item := by
  rcases h.change p with he | ⟨hnone, -⟩ | ⟨hmem, -⟩
  · rw [he, hp]
  · rw [hp] at hnone
    cases hnone
  · exact absurd hmem hno

/-- A place that is apart from those that change is as it was. -/
theorem same (h : Grows places d d') (hapart : ∀ t ∈ places, ¬ p <+: t) : d'.get? p = d.get? p := by
  rcases h.change p with he | ⟨-, -, t, ht, hbegins, -⟩ | ⟨hmem, -⟩
  · exact he
  · exact absurd hbegins (hapart t ht)
  · exact absurd List.prefix_rfl (hapart p hmem)

theorem trans {d'' : Disk} (h : Grows places d d') (h' : Grows places d' d'') :
    Grows places d d'' where
  cwd := h'.cwd.trans h.cwd
  change p := by
    rcases h'.change p with he' | ⟨hnone', hdir', t, ht⟩ | ⟨hmem, hno', hfile⟩
    · rw [he']
      exact h.change p
    · rcases h.change p with he | ⟨-, hdir, -⟩ | ⟨-, -, bytes, hfile⟩
      · exact .inr (.inl ⟨he ▸ hnone', hdir', t, ht⟩)
      · rw [hdir] at hnone'
        cases hnone'
      · rw [hfile] at hnone'
        cases hnone'
    · refine .inr (.inr ⟨hmem, ?_, hfile⟩)
      intro hdir
      exact hno' (h.directory hdir)

end Grows

/-! ## Following names -/

/-- Names as paths have them once they are read. -/
def Kept (names : List String) : Prop := ∀ name ∈ names, name ≠ "" ∧ name ≠ "."

theorem Kept.of_cons {name : String} {rest : List String} (h : Kept (name :: rest)) :
    (name ≠ "" ∧ name ≠ ".") ∧ Kept rest :=
  ⟨h name List.mem_cons_self, fun n hn => h n (List.mem_cons_of_mem _ hn)⟩

section Steps

variable {name : String} {rest : List String}

theorem follow_none (h : d.get? p = none) : d.follow p (name :: rest) = .error .missing := by
  rw [follow, h]

theorem follow_file {bytes : ByteArray} (h : d.get? p = some (.file bytes)) :
    d.follow p (name :: rest) = .error .notDirectory := by
  rw [follow, h]

theorem follow_skip (h : d.get? p = some .directory) (hskip : name = "" ∨ name = ".") :
    d.follow p (name :: rest) = d.follow p rest := by
  rw [follow, h]
  exact if_pos (by simpa using hskip)

theorem follow_long (h : d.get? p = some .directory) (hkept : name ≠ "" ∧ name ≠ ".")
    (hlong : name ≠ ".." ∧ name.utf8ByteSize > 255) :
    d.follow p (name :: rest) = .error .tooLong := by
  rw [follow, h]
  dsimp only
  rw [if_neg (by simpa using hkept), if_neg (by simpa using hlong.1), if_pos hlong.2]

theorem follow_step (h : d.get? p = some .directory) (hkept : name ≠ "" ∧ name ≠ ".")
    (hshort : ¬ (name ≠ ".." ∧ name.utf8ByteSize > 255)) :
    d.follow p (name :: rest) = d.follow (p.step name) rest := by
  rw [follow, h]
  dsimp only
  rw [if_neg (by simpa using hkept)]
  unfold Route.step
  by_cases hup : name = ".."
  · rw [if_pos (by simpa using hup), if_pos hup]
  · rw [if_neg (by simpa using hup), if_neg hup, if_neg fun hlong => hshort ⟨hup, hlong⟩]

end Steps

/-- Names are followed as far as directories stand. If something is missing on the way, all that is
left of the names is plain. -/
def plainFrom (d : Disk) : Route → List String → Bool
  | _, [] => true
  | p, name :: rest =>
    match d.get? p with
    | none => (name :: rest).all fun name => PlainName name
    | some (.file _) => true
    | some .directory =>
      if name ≠ ".." ∧ name.utf8ByteSize > 255 then true else plainFrom d (p.step name) rest

/-- The four ways to begin: nothing stands there, or a file, or a directory from which the first name
cannot be followed, or leads on. -/
theorem plainFrom_cons {name : String} {rest : List String} (h : d.plainFrom p (name :: rest) = true) :
    (d.get? p = none ∧ ∀ n ∈ name :: rest, PlainName n) ∨
      (∃ bytes, d.get? p = some (.file bytes)) ∨
      (d.get? p = some .directory ∧ (name ≠ ".." ∧ name.utf8ByteSize > 255)) ∨
      (d.get? p = some .directory ∧ ¬ (name ≠ ".." ∧ name.utf8ByteSize > 255) ∧
        d.plainFrom (p.step name) rest = true) := by
  unfold plainFrom at h
  cases hp : d.get? p with
  | none =>
    rw [hp] at h
    exact .inl ⟨rfl, by simpa using h⟩
  | some item =>
    cases item with
    | file bytes => exact .inr (.inl ⟨bytes, rfl⟩)
    | directory =>
      rw [hp] at h
      dsimp only at h
      split at h
      · rename_i hlong
        exact .inr (.inr (.inl ⟨rfl, hlong⟩))
      · rename_i hshort
        exact .inr (.inr (.inr ⟨rfl, hshort, h⟩))

theorem plainFrom_of_plain (d : Disk) (h : ∀ name ∈ names, PlainName name) (p : Route) :
    d.plainFrom p names = true := by
  induction names generalizing p with
  | nil => rfl
  | cons name rest ih =>
    unfold plainFrom
    cases d.get? p with
    | none => simpa using h
    | some item =>
      cases item with
      | file bytes => rfl
      | directory =>
        dsimp only
        split
        · rfl
        · exact ih (fun n hn => h n (List.mem_cons_of_mem _ hn)) _

theorem Grows.plainFrom (h : Grows places d d') (hplain : d.plainFrom p names = true) :
    d'.plainFrom p names = true := by
  induction names generalizing p with
  | nil => rfl
  | cons name rest ih =>
    rcases plainFrom_cons hplain with ⟨-, hall⟩ | ⟨bytes, hfile⟩ | ⟨hdir, hlong⟩ | ⟨hdir, hshort, hrest⟩
    · exact plainFrom_of_plain d' hall p
    · obtain ⟨bytes', hfile'⟩ := h.file hfile
      rw [Disk.plainFrom, hfile']
    · rw [Disk.plainFrom, h.directory hdir]
      exact if_pos hlong
    · rw [Disk.plainFrom, h.directory hdir]
      dsimp only
      rw [if_neg hshort]
      exact ih hrest

/-- Plain names are followed to nowhere, or to where they lead on paper, if no place that has been given
contents is on the way. -/
theorem Grows.follow_missing (h : Grows places d d') (inside : d.Inside) (hp : d.get? p = none)
    (hkept : Kept names) (hplain : ∀ name ∈ names, PlainName name)
    (hapart : ∀ t ∈ places, ¬ t <+: p ++ names) :
    d'.follow p names = .error .missing ∨ d'.follow p names = .ok (p ++ names) := by
  induction names generalizing p with
  | nil => exact .inr (by rw [follow, List.append_nil])
  | cons name rest ih =>
    have hname := hplain name List.mem_cons_self
    rcases h.change p with he | ⟨-, hdir, -⟩ | ⟨hmem, -⟩
    · exact .inl (follow_none (by rw [he, hp]))
    · rw [follow_step hdir hkept.of_cons.1 fun hlong => absurd hname.2 (Nat.not_le.mpr hlong.2),
        Route.step_plain hname, show p ++ name :: rest = p ++ [name] ++ rest by simp]
      refine ih (inside.below hp [name]) hkept.of_cons.2
        (fun n hn => hplain n (List.mem_cons_of_mem _ hn)) ?_
      simpa using hapart
    · exact absurd (List.prefix_append p _) (hapart p hmem)

/-- Names lead where they led, or from nowhere to a place where nothing stood. -/
theorem Grows.follow (h : Grows places d d') (inside : d.Inside) (hkept : Kept names)
    (hplain : d.plainFrom p names = true)
    (hapart : d.follow p names = .error .missing → ∀ t ∈ places, ¬ t <+: p.walk names) :
    d'.follow p names = d.follow p names ∨ d.follow p names = .error .missing ∧
      d'.follow p names = .ok (p.walk names) ∧ d.get? (p.walk names) = none := by
  induction names generalizing p with
  | nil => exact .inl (by rw [Disk.follow, Disk.follow])
  | cons name rest ih =>
    obtain ⟨hname, hrest⟩ := hkept.of_cons
    rcases plainFrom_cons hplain with ⟨hnone, hall⟩ | ⟨bytes, hfile⟩ | ⟨hdir, hlong⟩ | ⟨hdir, hshort, hon⟩
    · rw [Route.walk_plain hall] at hapart ⊢
      rw [follow_none hnone]
      rcases h.follow_missing inside hnone hkept hall (hapart (follow_none hnone)) with hmissing | hok
      · exact .inl hmissing
      · exact .inr ⟨rfl, hok, inside.below hnone _⟩
    · obtain ⟨bytes', hfile'⟩ := h.file hfile
      exact .inl (by rw [follow_file hfile, follow_file hfile'])
    · exact .inl (by rw [follow_long hdir hname hlong, follow_long (h.directory hdir) hname hlong])
    · rw [follow_step hdir hname hshort] at hapart ⊢
      rw [follow_step (h.directory hdir) hname hshort]
      exact ih hrest hon hapart

/-! ## Paths -/

section Paths

variable {path : String} {name : PathName}

theorem find_of_clean (hpath : path ≠ "") (hclean : Clean path) (hshort : path.utf8ByteSize ≤ 4095)
    (d : Disk) : d.find path = d.follow (d.start path) (slashParts path) := by
  rw [find, if_neg (by simpa using hpath), if_neg (by simpa [Clean] using hclean),
    if_neg (Nat.not_lt.mpr hshort)]
  rfl

theorem base_stands (stands : d.get? d.cwd = some .directory) (name : PathName) :
    d.get? (d.base name) = some .directory := by
  unfold base
  split
  · rfl
  · exact stands

theorem base_eq (h : d'.cwd = d.cwd) (name : PathName) : d'.base name = d.base name := by
  unfold base
  rw [h]

theorem follow_skips (h : d.get? p = some .directory) (n : Nat) (names : List String) :
    d.follow p (List.replicate n "" ++ names) = d.follow p names := by
  induction n with
  | zero => rfl
  | succ n ih => rw [List.replicate_succ, List.cons_append, follow_skip h (.inl rfl), ih]

/-- The parts of a path are what is followed. -/
theorem follow_slashParts (hname : name.Proper) (stands : d.get? d.cwd = some .directory) :
    d.follow (d.start (toString name)) (slashParts (toString name)) =
      d.follow (d.base name) name.parts := by
  have hbase := base_stands stands name
  rw [start_toString hname]
  by_cases hparts : name.parts = []
  · rw [hparts, follow]
    by_cases hslashes : name.slashes = 0
    · rw [PathName.toString_of_nothing hslashes hparts, show slashParts "." = ["."] from rfl,
        follow_skip hbase (.inr rfl), follow]
    · rw [PathName.toString_of_slashes hslashes, hparts, PathName.slashParts_slashes_append,
        follow_skips hbase, show slashParts ("/".intercalate []) = [""] from rfl,
        follow_skip hbase (.inl rfl), follow]
  · rw [PathName.slashParts_toString hname hparts]
    cases hslashes : name.slashes with
    | zero => rfl
    | succ n =>
      refine follow_skips ?_ _ _
      exact hbase

theorem find_toString (hname : name.Proper) (stands : d.get? d.cwd = some .directory)
    (hclean : Clean (toString name)) (hshort : (toString name).utf8ByteSize ≤ 4095) :
    d.find (toString name) = d.follow (d.base name) name.parts := by
  rw [find_of_clean (Migration.toString_ne_empty name) hclean hshort, follow_slashParts hname stands]

/-- A path that is written well is followed on every disk; any other is refused on every disk. -/
theorem find_cases (name : PathName) :
    (Clean (toString name) ∧ (toString name).utf8ByteSize ≤ 4095) ∨
      ∃ f, f ≠ .missing ∧ ∀ d : Disk, d.find (toString name) = .error f := by
  by_cases hclean : Clean (toString name)
  · by_cases hshort : (toString name).utf8ByteSize ≤ 4095
    · exact .inl ⟨hclean, hshort⟩
    · refine .inr ⟨.tooLong, by decide, fun d => ?_⟩
      rw [find, if_neg (by simpa using Migration.toString_ne_empty name),
        if_neg (by simpa [Clean] using hclean), if_pos (Nat.not_le.mp hshort)]
  · exact .inr ⟨.zero, by decide, find_of_not_clean hclean⟩

theorem kept_of_proper (hname : name.Proper) : Kept name.parts :=
  fun part hpart => ⟨(hname part hpart).1, (hname part hpart).2.1⟩

/-- The place that a path names on paper. -/
def placeFor (d : Disk) (name : PathName) : Route := (d.base name).walk name.parts

theorem placeFor_of_cwd (h : d'.cwd = d.cwd) (name : PathName) : d'.placeFor name = d.placeFor name := by
  unfold placeFor
  rw [base_eq h]

/-- Nothing but plain names is left of a path behind what is missing. -/
def plainly (d : Disk) (name : PathName) : Bool := d.plainFrom (d.base name) name.parts

theorem Grows.plainly (h : Grows places d d') (hplain : d.plainly name = true) :
    d'.plainly name = true := by
  unfold Disk.plainly
  rw [base_eq h.cwd]
  exact h.plainFrom hplain

theorem Grows.stands (h : Grows places d d') (stands : d.get? d.cwd = some .directory) :
    d'.get? d'.cwd = some .directory := by
  rw [h.cwd]
  exact h.directory stands

/-- A path leads where it led, or from nowhere to a place where nothing stood. -/
theorem Grows.find (h : Grows places d d') (inside : d.Inside) (stands : d.get? d.cwd = some .directory)
    (hname : name.Proper) (hplain : d.plainly name = true)
    (hapart : d.find (toString name) = .error .missing → ∀ t ∈ places, ¬ t <+: d.placeFor name) :
    d'.find (toString name) = d.find (toString name) ∨ d.find (toString name) = .error .missing ∧
      d'.find (toString name) = .ok (d.placeFor name) ∧ d.get? (d.placeFor name) = none := by
  rcases find_cases name with ⟨hclean, hshort⟩ | ⟨f, -, hf⟩
  · rw [find_toString hname stands hclean hshort] at hapart ⊢
    rw [find_toString hname (h.stands stands) hclean hshort, base_eq h.cwd]
    exact h.follow inside (kept_of_proper hname) hplain hapart
  · exact .inl (by rw [hf, hf])

theorem follow_kept (hkept : Kept names) (h : d.follow p names = .ok r) : r = p.walk names := by
  have hwalk := follow_walk h
  rwa [List.filter_eq_self.mpr (by simpa [Kept] using hkept)] at hwalk

theorem find_placeFor (stands : d.get? d.cwd = some .directory) (hname : name.Proper)
    (h : d.find (toString name) = .ok p) : p = d.placeFor name := by
  obtain ⟨-, hclean, hshort, -⟩ := find_ok_iff.mp h
  rw [find_toString hname stands hclean hshort] at h
  exact follow_kept (kept_of_proper hname) h

/-- What a path leads to, or why to nothing. -/
def see (d : Disk) (path : String) : Except Fault Item :=
  match d.find path with
  | .error f => .error f
  | .ok p => match d.get? p with
    | none => .error .missing
    | some item => .ok item

theorem see_of_error {f : Fault} (h : d.find path = .error f) : d.see path = .error f := by
  rw [see, h]

theorem see_of_none (h : d.find path = .ok p) (hnone : d.get? p = none) :
    d.see path = .error .missing := by
  rw [see, h]
  dsimp only
  rw [hnone]

theorem see_of_some {item : Item} (h : d.find path = .ok p) (hitem : d.get? p = some item) :
    d.see path = .ok item := by
  rw [see, h]
  dsimp only
  rw [hitem]

theorem item?_eq_see (d : Disk) (path : String) : d.item? path = (d.see path).toOption := by
  unfold item? see
  cases d.find path with
  | error f => rfl
  | ok p =>
    dsimp only [Except.toOption, Option.bind_some]
    cases d.get? p <;> rfl

/-- A path that is apart from the places that change leads to what it led to. -/
theorem Grows.see (h : Grows places d d') (inside : d.Inside) (stands : d.get? d.cwd = some .directory)
    (hname : name.Proper) (hplain : d.plainly name = true)
    (hapart : ∀ t ∈ places, ¬ t <+: d.placeFor name ∧ ¬ d.placeFor name <+: t) :
    d'.see (toString name) = d.see (toString name) := by
  have hsame : d'.get? (d.placeFor name) = d.get? (d.placeFor name) :=
    h.same fun t ht => (hapart t ht).2
  rcases h.find inside stands hname hplain (fun _ t ht => (hapart t ht).1) with
    he | ⟨hmissing, hok, hnone⟩
  · cases hfind : d.find (toString name) with
    | error f => rw [see_of_error hfind, see_of_error (he.trans hfind)]
    | ok p =>
      obtain rfl := find_placeFor stands hname hfind
      unfold Disk.see
      rw [he, hfind]
      dsimp only
      rw [hsame]
  · rw [see_of_error hmissing, see_of_none hok (hsame.trans hnone)]

end Paths

end Disk

end TestMigration
