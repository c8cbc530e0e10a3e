import TestMigration.Files.Search
import TestMigration.Proofs.Clean

/-! Paths that are put together from a directory and the names below it. Following such a path is
following the directory and then the names, however the directory is written. -/

namespace TestMigration

/-! ## Texts between slashes -/

/-- No separator is left in the pieces between separators. -/
theorem not_mem_of_mem_splitOn {α : Type} [BEq α] [LawfulBEq α] {a : α} {as part : List α}
    (h : part ∈ as.splitOn a) : a ∉ part := by
  induction as generalizing part with
  | nil => simp_all
  | cons first rest ih =>
    rw [List.splitOn_cons_eq_if_modifyHead] at h
    by_cases hfirst : first = a
    · rw [if_pos (by simpa using hfirst)] at h
      rcases List.mem_cons.mp h with rfl | h
      · simp
      · exact ih h
    · rw [if_neg (by simpa using hfirst)] at h
      cases hparts : rest.splitOn a with
      | nil => exact absurd hparts (List.splitOn_ne_nil a rest)
      | cons piece pieces =>
        rw [hparts] at h ih
        rcases List.mem_cons.mp h with rfl | h
        · simpa [Ne.symm hfirst] using ih List.mem_cons_self
        · exact ih (List.mem_cons_of_mem _ h)

/-- What stands before a slash and what stands after it are taken apart on their own. -/
theorem slashParts_append (a b : String) :
    slashParts (a ++ "/" ++ b) = slashParts a ++ slashParts b := by
  unfold slashParts
  rw [String.toList_append, String.toList_append, show "/".toList = ['/'] from rfl,
    List.append_assoc, List.singleton_append, List.splitOn_append_cons_self, List.map_append]

theorem slashParts_ne_nil (s : String) : slashParts s ≠ [] := by
  unfold slashParts
  simp [List.splitOn_ne_nil]

theorem intercalate_slashParts (s : String) : "/".intercalate (slashParts s) = s := by
  rw [← String.toList_inj, String.toList_intercalate]
  unfold slashParts
  rw [List.map_map, show "/".toList = ['/'] from rfl]
  have hid : String.toList ∘ String.ofList = id := by
    funext cs
    simp
  rw [hid, List.map_id, List.intercalate_splitOn]

/-- No slash stands in the text. -/
def Slashless (name : String) : Prop := '/' ∉ name.toList

instance (s : String) : Decidable (Slashless s) := inferInstanceAs (Decidable ('/' ∉ s.toList))

theorem slashParts_intercalate {names : List String} (h : ∀ name ∈ names, Slashless name)
    (hnames : names ≠ []) : slashParts ("/".intercalate names) = names := by
  have hparts : ∀ part ∈ names.map String.toList, '/' ∉ part := by
    intro part hpart
    obtain ⟨name, hname, rfl⟩ := List.mem_map.mp hpart
    exact h name hname
  unfold slashParts
  rw [String.toList_intercalate, show "/".toList = ['/'] from rfl,
    List.splitOn_intercalate _ hparts (by simpa using hnames), List.map_map]
  simp

theorem startsWith_of_slashless {name : String} (h : Slashless name) :
    name.startsWith "/" = false := by
  rw [Bool.eq_false_iff, ne_eq, String.startsWith_string_iff]
  exact fun hbegins => h (hbegins.subset (by simp))

theorem slashParts_of_slashless {name : String} (h : Slashless name) : slashParts name = [name] := by
  unfold slashParts
  rw [List.splitOn_eq_singleton h]
  simp

theorem endsWith_iff {s tail : String} : s.endsWith tail = true ↔ tail.toList <:+ s.toList := by
  change s.toSlice.endsWith tail = true ↔ _
  rw [String.Slice.endsWith_string_iff, String.copy_toSlice]

/-! ## Names -/

/-- A name that can stand in a directory. -/
structure LegalName (name : String) : Prop where
  nonempty : name ≠ ""
  notDot : name ≠ "."
  notUp : name ≠ ".."
  slashless : Slashless name
  clean : Clean name
  short : name.utf8ByteSize ≤ 255

instance : DecidablePred LegalName := fun name =>
  decidable_of_iff (name ≠ "" ∧ name ≠ "." ∧ name ≠ ".." ∧ Slashless name ∧ Clean name ∧
      name.utf8ByteSize ≤ 255)
    ⟨fun ⟨h₁, h₂, h₃, h₄, h₅, h₆⟩ => ⟨h₁, h₂, h₃, h₄, h₅, h₆⟩,
      fun h => ⟨h.nonempty, h.notDot, h.notUp, h.slashless, h.clean, h.short⟩⟩

theorem relative_intercalate {names : List String} (h : ∀ name ∈ names, LegalName name) :
    ("/".intercalate names).startsWith "/" = false := by
  rw [Bool.eq_false_iff, ne_eq, String.startsWith_string_iff]
  rintro ⟨rest, hrest⟩
  have hnames : names ≠ [] := by
    rintro rfl
    cases hrest
  have hpath : "/".intercalate names = "" ++ "/" ++ String.ofList rest := by
    rw [← String.toList_inj, ← hrest]
    simp
  have hsplit := slashParts_intercalate (fun name hname => (h name hname).slashless) hnames
  rw [hpath, slashParts_append] at hsplit
  have hempty : "" ∈ names := by
    rw [← hsplit]
    exact List.mem_append_left _ List.mem_cons_self
  exact (h "" hempty).nonempty rfl

theorem clean_intercalate {names : List String} (h : ∀ name ∈ names, LegalName name) :
    Clean ("/".intercalate names) := by
  intro hzero
  rw [String.toList_intercalate] at hzero
  rcases mem_intercalate hzero with hslash | ⟨cs, hcs, hzero⟩
  · exact absurd hslash (by decide)
  · obtain ⟨name, hname, rfl⟩ := List.mem_map.mp hcs
    exact (h name hname).clean hzero

/-! ## Following -/

namespace Disk

variable {d : Disk} {p q r : Route} {name path dir : String}

theorem follow_cons_iff {rest : List String} : d.follow p (name :: rest) = .ok r ↔
    d.get? p = some .directory ∧
      ((name = "" ∨ name = ".") ∧ d.follow p rest = .ok r ∨
        ¬ (name = "" ∨ name = ".") ∧ (name = ".." ∨ name.utf8ByteSize ≤ 255) ∧
          d.follow (Route.step p name) rest = .ok r) := by
  rw [follow]
  cases d.get? p with
  | none => simp
  | some item =>
    cases item with
    | file bytes => simp
    | directory =>
      by_cases hskip : name = "" ∨ name = "."
      · simp [hskip]
      · rw [if_neg (by simpa using hskip)]
        by_cases hup : name = ".."
        · simp [hup, Route.step]
        · by_cases hlong : name.utf8ByteSize > 255
          · simp [hskip, hup, hlong, Nat.not_le.mpr hlong]
          · rw [if_neg (by simpa using hup), if_neg hlong]
            simp [hskip, hup, Route.step, Nat.not_lt.mp hlong]

theorem follow_append_iff {names rest : List String} : d.follow p (names ++ rest) = .ok r ↔
    ∃ q, d.follow p names = .ok q ∧ d.follow q rest = .ok r := by
  induction names generalizing p with
  | nil => simp [follow]
  | cons name names ih =>
    rw [List.cons_append]
    simp only [follow_cons_iff, ih]
    constructor
    · rintro ⟨hdir, ⟨hskip, q, hq, hr⟩ | ⟨hname, hshort, q, hq, hr⟩⟩
      · exact ⟨q, ⟨hdir, .inl ⟨hskip, hq⟩⟩, hr⟩
      · exact ⟨q, ⟨hdir, .inr ⟨hname, hshort, hq⟩⟩, hr⟩
    · rintro ⟨q, ⟨hdir, ⟨hskip, hq⟩ | ⟨hname, hshort, hq⟩⟩, hr⟩
      · exact ⟨hdir, .inl ⟨hskip, q, hq, hr⟩⟩
      · exact ⟨hdir, .inr ⟨hname, hshort, q, hq, hr⟩⟩

/-- Empty texts at the end only ask for a directory. -/
theorem follow_of_append_empty {names : List String} (n : Nat)
    (h : d.follow p (names ++ List.replicate n "") = .ok r) : d.follow p names = .ok r := by
  obtain ⟨q, hq, hrest⟩ := follow_append_iff.mp h
  suffices hsame : q = r by rwa [← hsame]
  clear hq h
  induction n with
  | zero => exact Except.ok.inj hrest
  | succ n ih =>
    rw [List.replicate_succ, follow_cons_iff] at hrest
    rcases hrest.2 with ⟨-, hrest⟩ | ⟨hname, -⟩
    · exact ih hrest
    · exact absurd (.inl rfl) hname

/-- What is skipped when a path is read is not needed to follow it. -/
theorem follow_filter {names : List String} (h : d.follow p names = .ok r) :
    d.follow p (names.filter fun part => part != "" && part != ".") = .ok r := by
  induction names generalizing p with
  | nil => exact h
  | cons name names ih =>
    obtain ⟨hdir, ⟨hskip, h⟩ | ⟨hname, hshort, h⟩⟩ := follow_cons_iff.mp h
    · rw [List.filter_cons_of_neg (by rcases hskip with rfl | rfl <;> simp)]
      exact ih h
    · rw [List.filter_cons_of_pos (by simpa using hname), follow_cons_iff]
      exact ⟨hdir, .inr ⟨hname, hshort, ih h⟩⟩

/-- Where a path begins. -/
def start (d : Disk) (path : String) : Route := if path.startsWith "/" then [] else d.cwd

theorem find_ok_iff : d.find path = .ok p ↔ path ≠ "" ∧ Clean path ∧ path.utf8ByteSize ≤ 4095 ∧
    d.follow (d.start path) (slashParts path) = .ok p := by
  unfold find start Clean
  by_cases hempty : path = ""
  · simp [hempty]
  rw [if_neg (by simpa using hempty)]
  by_cases hzero : '\x00' ∈ path.toList
  · simp [hzero]
  rw [if_neg (by simpa using hzero)]
  by_cases hlong : path.utf8ByteSize > 4095
  · simp [hlong, Nat.not_le.mpr hlong]
  rw [if_neg hlong]
  simp [hempty, hzero, Nat.not_lt.mp hlong]

/-! ## Joining and splitting -/

/-- Between a directory and what is joined to it stands a slash, or the last one of the directory. -/
theorem joinPath_eq (hdir : dir ≠ "") : ∃ front,
    (∀ path : String, path.startsWith "/" = false → joinPath dir path = front ++ "/" ++ path) ∧
      (dir = front ∧ dir.endsWith "/" = false ∨ dir = front ++ "/") := by
  cases hslash : dir.endsWith "/" with
  | false =>
    refine ⟨dir, fun path hpath => ?_, .inl ⟨rfl, rfl⟩⟩
    unfold joinPath
    rw [if_neg (by simp [hpath]), hslash, if_neg (by simpa using hdir)]
  | true =>
    obtain ⟨front, hfront⟩ := endsWith_iff.mp hslash
    have hdir' : dir = String.ofList front ++ "/" := by
      rw [← String.toList_inj, String.toList_append, String.toList_ofList]
      exact hfront.symm
    refine ⟨String.ofList front, fun path hpath => ?_, .inr hdir'⟩
    unfold joinPath
    rw [if_neg (by simp [hpath]), hslash, if_pos (by simp), ← hdir']

theorem startsWith_append {front : String} (hfront : front ≠ "") (path : String) :
    (front ++ path).startsWith "/" = front.startsWith "/" := by
  rw [Bool.eq_iff_iff, String.startsWith_string_iff, String.startsWith_string_iff,
    String.toList_append, show "/".toList = ['/'] from rfl]
  cases hchars : front.toList with
  | nil => exact absurd (String.toList_eq_nil_iff.mp hchars) hfront
  | cons c rest => simp

/-- A path below a directory is followed by way of the directory. -/
theorem follow_joinPath (hpath : path.startsWith "/" = false) (hdir : d.find dir = .ok p) :
    ∃ front, slashParts (joinPath dir path) = front ++ slashParts path ∧
      d.follow (d.start (joinPath dir path)) front = .ok p := by
  obtain ⟨hempty, -, -, hfollow⟩ := find_ok_iff.mp hdir
  obtain ⟨front, hjoin, hfront⟩ := joinPath_eq hempty
  have hjoin := hjoin path hpath
  refine ⟨slashParts front, by rw [hjoin, slashParts_append], ?_⟩
  have hstart : d.start (joinPath dir path) = d.start dir := by
    unfold start
    rcases hfront with ⟨rfl, -⟩ | rfl
    · rw [hjoin, String.append_assoc, startsWith_append hempty]
    · rw [hjoin, startsWith_append hempty]
  rw [hstart]
  rcases hfront with ⟨rfl, -⟩ | rfl
  · exact hfollow
  · have hparts : slashParts (front ++ "/") = slashParts front ++ List.replicate 1 "" := by
      simpa [show slashParts "" = [""] from rfl] using slashParts_append front ""
    rw [hparts] at hfollow
    exact follow_of_append_empty 1 hfollow

/-- Names that can be followed from a directory can be followed behind its path. -/
theorem find_joinPath (hdir : d.find dir = .ok p) (hpath : path.startsWith "/" = false)
    (hclean : Clean path) (hshort : (joinPath dir path).utf8ByteSize ≤ 4095)
    (hfollow : d.follow p (slashParts path) = .ok q) : d.find (joinPath dir path) = .ok q := by
  obtain ⟨hempty, hdirClean, -, -⟩ := find_ok_iff.mp hdir
  obtain ⟨front, hparts, hfront⟩ := follow_joinPath hpath hdir
  obtain ⟨before, hjoin, hbefore⟩ := joinPath_eq hempty
  have hjoin := hjoin path hpath
  refine find_ok_iff.mpr ⟨?_, ?_, hshort, ?_⟩
  · rw [hjoin]
    intro hnil
    have hlength := congrArg String.length hnil
    simp at hlength
  · rw [hjoin]
    refine clean_append (clean_append ?_ (by decide)) hclean
    rcases hbefore with ⟨rfl, -⟩ | rfl
    · exact hdirClean
    · unfold Clean at hdirClean
      rw [String.toList_append] at hdirClean
      exact fun hzero => hdirClean (List.mem_append_left _ hzero)
  · rw [hparts, follow_append_iff]
    exact ⟨p, hfront, hfollow⟩

theorem follow_of_find_joinPath (hdir : d.find dir = .ok p) (hpath : path.startsWith "/" = false)
    (hfind : d.find (joinPath dir path) = .ok q) : d.follow p (slashParts path) = .ok q := by
  obtain ⟨front, hparts, hfront⟩ := follow_joinPath hpath hdir
  obtain ⟨-, -, -, hfollow⟩ := find_ok_iff.mp hfind
  rw [hparts, follow_append_iff] at hfollow
  obtain ⟨p', hp', hq⟩ := hfollow
  cases hfront.symm.trans hp'
  exact hq

/-- A path is taken apart at its last slash, and the slashes before that are dropped. -/
theorem splitPath_slash (front : String) (hname : Slashless name) :
    splitPath (front ++ "/" ++ name) =
      (String.ofList (let kept := front.toList.reverse.dropWhile (· == '/')
        if kept.isEmpty then '/' :: front.toList.reverse else kept).reverse, name) := by
  have hreverse : (front ++ "/" ++ name).toList.reverse =
      name.toList.reverse ++ '/' :: front.toList.reverse := by
    simp
  have hnames : ∀ c ∈ name.toList.reverse, (c != '/') = true := by
    intro c hc
    rw [bne_iff_ne]
    rintro rfl
    exact hname (List.mem_reverse.mp hc)
  have htail : (front ++ "/" ++ name).toList.reverse.takeWhile (· != '/') = name.toList.reverse := by
    rw [hreverse, List.takeWhile_append_of_pos hnames]
    simp
  unfold splitPath
  dsimp only
  rw [htail, hreverse, List.drop_left, List.dropWhile_cons_of_pos (by simp), List.reverse_reverse,
    String.ofList_toList]

/-- The slashes that a list of characters ends with. -/
theorem exists_slashes_behind (cs : List Char) :
    ∃ n, cs = (cs.reverse.dropWhile (· == '/')).reverse ++ List.replicate n '/' := by
  refine ⟨(cs.reverse.takeWhile (· == '/')).length, ?_⟩
  have hslashes : cs.reverse.takeWhile (· == '/') =
      List.replicate (cs.reverse.takeWhile (· == '/')).length '/' :=
    List.eq_replicate_iff.mpr
      ⟨rfl, fun c hc => beq_iff_eq.mp (List.all_eq_true.mp List.all_takeWhile c hc)⟩
  calc cs = (cs.reverse.takeWhile (· == '/') ++ cs.reverse.dropWhile (· == '/')).reverse := by
        rw [List.takeWhile_append_dropWhile, List.reverse_reverse]
    _ = (cs.reverse.dropWhile (· == '/')).reverse ++
          (cs.reverse.takeWhile (· == '/')).reverse := List.reverse_append
    _ = _ := by rw [hslashes, List.reverse_replicate, List.length_replicate]

theorem dropWhile_of_not_endsWith (h : dir.endsWith "/" = false) :
    dir.toList.reverse.dropWhile (· == '/') = dir.toList.reverse := by
  cases hreverse : dir.toList.reverse with
  | nil => rfl
  | cons c rest =>
    rw [List.dropWhile_cons_of_neg]
    intro hc
    have hchars : dir.toList = rest.reverse ++ [c] := by
      rw [← List.reverse_reverse dir.toList, hreverse, List.reverse_cons]
    have hends : dir.endsWith "/" = true := by
      rw [endsWith_iff, hchars, beq_iff_eq.mp hc]
      exact List.suffix_append _ _
    rw [h] at hends
    cases hends

/-- What is put together is taken apart again, but for slashes at the end of the directory. -/
theorem splitPath_joinPath (hdir : dir ≠ "") (hname : Slashless name) :
    ∃ head slashes, splitPath (joinPath dir name) = (head, name) ∧ head ≠ "" ∧
      dir = head ++ String.ofList (List.replicate slashes '/') ∧
      (dir.endsWith "/" = false → slashes = 0) := by
  obtain ⟨front, hjoin, hfront⟩ := joinPath_eq hdir
  rw [hjoin name (startsWith_of_slashless hname), splitPath_slash front hname]
  dsimp only
  rcases hfront with ⟨rfl, hslash⟩ | rfl
  · refine ⟨dir, 0, ?_, hdir, by simp, fun _ => rfl⟩
    rw [dropWhile_of_not_endsWith hslash, if_neg (by simpa using hdir)]
    simp
  · have hends : (front ++ "/").endsWith "/" = true := by
      rw [endsWith_iff, String.toList_append]
      exact List.suffix_append _ _
    obtain ⟨slashes, hchars⟩ := exists_slashes_behind front.toList
    cases hkept : front.toList.reverse.dropWhile (· == '/') with
    | nil => exact ⟨front ++ "/", 0, by simp, hdir, by simp, fun _ => rfl⟩
    | cons c rest =>
      rw [hkept] at hchars
      refine ⟨String.ofList (c :: rest).reverse, slashes + 1, by simp, by simp, ?_, ?_⟩
      · rw [← String.toList_inj, String.toList_append, hchars]
        simp [List.replicate_succ']
      · intro hno
        rw [hends] at hno
        cases hno

theorem slashParts_slashes (path : String) (n : Nat) :
    slashParts (path ++ String.ofList (List.replicate n '/')) =
      slashParts path ++ List.replicate n "" := by
  induction n with
  | zero => simp
  | succ n ih =>
    have hpath : path ++ String.ofList (List.replicate (n + 1) '/') =
        path ++ String.ofList (List.replicate n '/') ++ "/" ++ "" := by
      rw [← String.toList_inj]
      simp [List.replicate_succ']
    rw [hpath, slashParts_append, ih, show slashParts "" = [""] from rfl, List.append_assoc,
      ← List.replicate_succ']

/-- Slashes at the end of the path of a directory can be left out. -/
theorem find_of_slashes {n : Nat} (hpath : path ≠ "")
    (h : d.find (path ++ String.ofList (List.replicate n '/')) = .ok p) : d.find path = .ok p := by
  obtain ⟨-, hclean, hshort, hfollow⟩ := find_ok_iff.mp h
  refine find_ok_iff.mpr ⟨hpath, ?_, ?_, ?_⟩
  · intro hzero
    refine hclean ?_
    rw [String.toList_append]
    exact List.mem_append_left _ hzero
  · rw [String.utf8ByteSize_append] at hshort
    omega
  · rw [slashParts_slashes] at hfollow
    have hstart : d.start (path ++ String.ofList (List.replicate n '/')) = d.start path := by
      unfold start
      rw [startsWith_append hpath]
    rw [hstart] at hfollow
    exact follow_of_append_empty n hfollow

end Disk

end TestMigration
