import Mathlib.Data.List.Induction
import Mathlib.Data.List.Nodup
import TestMigration.Proofs.Spelling

/-! Disks as they can be. Whatever stands below a directory is found by the path of the directory and
the names that lead there. -/

namespace TestMigration

namespace Disk

/-- Every name is legal, every item stands in a directory, and no two stand at one place. -/
structure Tidy (d : Disk) : Prop where
  named : ∀ e ∈ d.items, e.1 ≠ [] ∧ ∀ name ∈ e.1, LegalName name
  inside : ∀ e ∈ d.items, d.get? e.1.dropLast = some .directory
  once : (d.items.map Prod.fst).Nodup
  cwd : ∀ name ∈ d.cwd, LegalName name

variable {d : Disk} {p : Route} {item : Item}

theorem Tidy.get?_of_mem (tidy : d.Tidy) (h : (p, item) ∈ d.items) : d.get? p = some item := by
  unfold get?
  rw [if_neg (by simpa using (tidy.named _ h).1), Option.map_eq_some_iff]
  cases hfind : d.items.find? (·.1 == p) with
  | none =>
    rw [List.find?_eq_none] at hfind
    exact absurd (beq_self_eq_true p) (by simpa using hfind _ h)
  | some e =>
    have hplace : e.1 = p := by simpa using List.find?_some hfind
    have hsame : e = (p, item) :=
      List.inj_on_of_nodup_map tidy.once (List.mem_of_find?_eq_some hfind) h hplace
    exact ⟨e, rfl, by rw [hsame]⟩

/-- Directories lead to whatever stands on the disk. -/
theorem Tidy.above (tidy : d.Tidy) {q : Route} (h : (q, item) ∈ d.items) (hbegins : p <+: q)
    (hne : p ≠ q) : d.get? p = some .directory := by
  induction q using List.reverseRec generalizing item with
  | nil => exact absurd rfl (tidy.named _ h).1
  | append_singleton front last ih =>
    have hparent := tidy.inside _ h
    dsimp only at hparent
    rw [List.dropLast_concat] at hparent
    rcases List.prefix_concat_iff.mp hbegins with hsame | hbegins
    · exact absurd hsame hne
    · by_cases hsame : p = front
      · rw [hsame]
        exact hparent
      · have hfront : front ≠ [] := by
          rintro rfl
          exact hsame (List.prefix_nil.mp hbegins)
        exact ih (mem_of_get? hparent hfront) hbegins hsame

theorem mem_filesBelow {names : List String} :
    names ∈ d.filesBelow p ↔ ∃ bytes, (p ++ names, .file bytes) ∈ d.items := by
  unfold filesBelow
  rw [List.mem_filterMap]
  constructor
  · rintro ⟨⟨q, item⟩, hq, hnames⟩
    dsimp only at hnames
    split at hnames
    · split at hnames
      · rename_i bytes hbegins
        cases hnames
        obtain ⟨rest, rfl⟩ := List.isPrefixOf_iff_prefix.mp hbegins
        exact ⟨bytes, by simpa using hq⟩
      · cases hnames
    · cases hnames
  · rintro ⟨bytes, hmem⟩
    refine ⟨_, hmem, ?_⟩
    dsimp only
    rw [if_pos (List.isPrefixOf_iff_prefix.mpr (List.prefix_append p names)), List.drop_left]

theorem mem_namesIn {name : String} :
    name ∈ d.namesIn p ↔ ∃ item, (p ++ [name], item) ∈ d.items := by
  unfold namesIn
  rw [List.mem_filterMap]
  constructor
  · rintro ⟨⟨q, item⟩, hq, hname⟩
    dsimp only at hname
    split at hname
    · rename_i hparent
      refine ⟨item, ?_⟩
      have hwhole := List.dropLast_append_getLast? name hname
      rw [beq_iff_eq.mp hparent] at hwhole
      rwa [hwhole]
    · cases hname
  · rintro ⟨item, hmem⟩
    exact ⟨_, hmem, by simp⟩

/-- Names are followed to what stands there. -/
theorem Tidy.follow (tidy : d.Tidy) {names : List String} (h : (p ++ names, item) ∈ d.items) :
    d.follow p names = .ok (p ++ names) := by
  have hlegal : ∀ name ∈ names, LegalName name :=
    fun name hname => (tidy.named _ h).2 name (List.mem_append_right p hname)
  induction names generalizing p with
  | nil => rw [List.append_nil, Disk.follow]
  | cons name rest ih =>
    have hname := hlegal name List.mem_cons_self
    rw [follow_cons_iff]
    refine ⟨tidy.above h (List.prefix_append _ _) (by simp), .inr ⟨?_, .inr hname.short, ?_⟩⟩
    · exact fun hskip => hskip.elim hname.nonempty hname.notDot
    · have hwhole : p ++ name :: rest = p ++ [name] ++ rest := by simp
      rw [hwhole] at h ⊢
      rw [show Route.step p name = p ++ [name] by simp [Route.step, hname.notUp]]
      exact ih h fun name hmem => hlegal name (List.mem_cons_of_mem _ hmem)

/-! ## Paths below a directory -/

variable {q : Route} {dir name : String} {front : List String}

theorem joinPath_ne_empty (hdir : dir ≠ "") (hname : name.startsWith "/" = false) :
    joinPath dir name ≠ "" := by
  obtain ⟨front, hjoin, -⟩ := joinPath_eq hdir
  rw [hjoin name hname]
  intro hempty
  have hlength := congrArg String.length hempty
  simp at hlength

theorem size_le_joinPath (hdir : dir ≠ "") (hname : name.startsWith "/" = false) :
    dir.utf8ByteSize ≤ (joinPath dir name).utf8ByteSize := by
  obtain ⟨front, hjoin, hfront⟩ := joinPath_eq hdir
  rw [hjoin name hname, String.utf8ByteSize_append, String.utf8ByteSize_append]
  rcases hfront with ⟨rfl, -⟩ | rfl
  · omega
  · rw [String.utf8ByteSize_append]
    omega

/-- The directories in front of a name, and the name, are joined to no more than all at once. -/
theorem size_joinPath_front (hdir : dir ≠ "")
    (hfront : ∀ name ∈ front, LegalName name) (hname : LegalName name) :
    (joinPath (joinPath dir ("/".intercalate front)) name).utf8ByteSize ≤
      (joinPath dir ("/".intercalate (front ++ [name]))).utf8ByteSize := by
  have hlegal : ∀ n ∈ front ++ [name], LegalName n := by
    intro n hn
    rcases List.mem_append.mp hn with hn | hn
    · exact hfront n hn
    · rw [List.mem_singleton.mp hn]
      exact hname
  have hrelative := relative_intercalate hfront
  obtain ⟨before, hjoin, -⟩ := joinPath_eq hdir
  obtain ⟨deep, hjoin', hdeep⟩ := joinPath_eq (joinPath_ne_empty hdir hrelative)
  rw [hjoin' name (startsWith_of_slashless hname.slashless), hjoin _ (relative_intercalate hlegal)]
  have hsize := congrArg String.utf8ByteSize (hjoin _ hrelative)
  cases front with
  | nil =>
    rcases hdeep with ⟨-, hno⟩ | hdeep
    · have hends : (joinPath dir ("/".intercalate [])).endsWith "/" = true := by
        rw [endsWith_iff, hjoin _ hrelative]
        exact ⟨before.toList, by simp⟩
      rw [hends] at hno
      cases hno
    · rw [hdeep] at hsize
      simp only [String.utf8ByteSize_append, String.intercalate_nil, List.nil_append,
        String.intercalate_singleton, String.utf8ByteSize_empty] at hsize ⊢
      omega
  | cons first rest =>
    have hwhole : "/".intercalate (first :: rest ++ [name]) =
        "/".intercalate (first :: rest) ++ "/" ++ name := by
      rw [String.intercalate_append_of_ne_nil (by simp) (by simp), String.intercalate_singleton]
    rw [hwhole]
    have hdeepSize : deep.utf8ByteSize ≤
        (joinPath dir ("/".intercalate (first :: rest))).utf8ByteSize := by
      rcases hdeep with ⟨hsame, -⟩ | hsame
      · exact Nat.le_of_eq (by rw [hsame])
      · rw [hsame, String.utf8ByteSize_append]
        omega
    simp only [String.utf8ByteSize_append] at hsize ⊢
    omega

theorem follow_name (hname : name ≠ "" ∧ name ≠ "." ∧ name ≠ "..")
    (h : d.follow p [name] = .ok q) : q = p ++ [name] := by
  obtain ⟨-, ⟨hskip, -⟩ | ⟨-, -, h⟩⟩ := follow_cons_iff.mp h
  · exact absurd hskip (by simp [hname.1, hname.2.1])
  · cases h
    simp [Route.step, hname.2.2]

theorem find_of_isFile_joinPath (hdir : d.find dir = .ok p)
    (hname : name ≠ "" ∧ name ≠ "." ∧ name ≠ "..") (hslash : Slashless name)
    (h : d.isFile (joinPath dir name) = true) :
    d.find (joinPath dir name) = .ok (p ++ [name]) ∧
      ∃ bytes, d.get? (p ++ [name]) = some (.file bytes) := by
  obtain ⟨q, bytes, hfind, hitem⟩ := find_of_isFile h
  have hfollow := follow_of_find_joinPath hdir (startsWith_of_slashless hslash) hfind
  rw [slashParts_of_slashless hslash] at hfollow
  cases follow_name hname hfollow
  exact ⟨hfind, bytes, hitem⟩

theorem find_joinPath_name (tidy : d.Tidy) (hdir : d.find dir = .ok p) {item : Item}
    (h : (p ++ [name], item) ∈ d.items) (hshort : (joinPath dir name).utf8ByteSize ≤ 4095) :
    d.find (joinPath dir name) = .ok (p ++ [name]) := by
  have hname := (tidy.named _ h).2 name (List.mem_append_right p List.mem_cons_self)
  refine find_joinPath hdir (startsWith_of_slashless hname.slashless) hname.clean hshort ?_
  rw [slashParts_of_slashless hname.slashless]
  exact tidy.follow h

theorem isFile_of_find {path : String} {bytes : ByteArray} (hfind : d.find path = .ok p)
    (hitem : d.get? p = some (.file bytes)) : d.isFile path = true := by
  unfold isFile item?
  rw [hfind]
  simp [Except.toOption, hitem]

/-- Directories below a directory are found by their path. -/
theorem find_joinPath_front (tidy : d.Tidy) (hdir : d.find dir = .ok p)
    (hplace : d.get? p = some .directory) (hfront : d.get? (p ++ front) = some .directory)
    (hshort : (joinPath dir ("/".intercalate front)).utf8ByteSize ≤ 4095) :
    d.find (joinPath dir ("/".intercalate front)) = .ok (p ++ front) := by
  cases front with
  | nil =>
    rw [List.append_nil]
    refine find_joinPath hdir (by decide) (by decide) hshort ?_
    rw [show slashParts ("/".intercalate []) = [""] from rfl, follow_cons_iff]
    exact ⟨hplace, .inl ⟨.inl rfl, rfl⟩⟩
  | cons first rest =>
    have hitem := mem_of_get? hfront (by simp)
    have hlegal : ∀ name ∈ first :: rest, LegalName name :=
      fun name hname => (tidy.named _ hitem).2 name (List.mem_append_right p hname)
    refine find_joinPath hdir (relative_intercalate hlegal) (clean_intercalate hlegal) hshort ?_
    rw [slashParts_intercalate (fun name hname => (hlegal name hname).slashless) (by simp)]
    exact tidy.follow hitem

/-- The path leads to the place, and chooses the dialect that the name chooses. -/
structure Names (d : Disk) (path : String) (q : Route) (name : String) : Prop where
  found : d.find path = .ok q
  dialect : dialectFor (some path) = dialectFor (some name)

end Disk

end TestMigration
