import TestMigration.Proofs.Paths
import TestMigration.Tree.Document

/-! Names as they are read and written again. A path leads to the same place both ways, and chooses the
same dialect, for the dialect is chosen by the last part. -/

namespace TestMigration

namespace PathName

/-- Each part is one that is read where it is written. -/
def Proper (p : PathName) : Prop := ∀ part ∈ p.parts, part ≠ "" ∧ part ≠ "." ∧ Slashless part

theorem slashless_of_slashParts {s part : String} (h : part ∈ slashParts s) : Slashless part := by
  obtain ⟨cs, hcs, rfl⟩ := List.mem_map.mp h
  unfold Slashless
  rw [String.toList_ofList]
  exact not_mem_of_mem_splitOn hcs

theorem parts_ofString (s : String) :
    (ofString s).parts = (slashParts s).filter fun part => part != "" && part != "." := rfl

theorem proper_ofString (s : String) : (ofString s).Proper := by
  intro part hpart
  obtain ⟨hmem, hkept⟩ := List.mem_filter.mp hpart
  simp only [bne_iff_ne, Bool.and_eq_true] at hkept
  exact ⟨hkept.1, hkept.2, slashless_of_slashParts hmem⟩

theorem slashParts_slashes_append (n : Nat) (path : String) :
    slashParts (String.ofList (List.replicate n '/') ++ path) =
      List.replicate n "" ++ slashParts path := by
  induction n with
  | zero => simp
  | succ n ih =>
    have hpath : String.ofList (List.replicate (n + 1) '/') ++ path =
        "" ++ "/" ++ (String.ofList (List.replicate n '/') ++ path) := by
      rw [← String.toList_inj]
      simp [List.replicate_succ]
    rw [hpath, slashParts_append, ih, List.replicate_succ]
    rfl

theorem toString_of_slashes {p : PathName} (hslashes : p.slashes ≠ 0) :
    toString p = String.ofList (List.replicate p.slashes '/') ++ "/".intercalate p.parts := by
  rw [toString_eq, if_neg]
  simp [hslashes]

theorem toString_of_nothing {p : PathName} (hslashes : p.slashes = 0) (hparts : p.parts = []) :
    toString p = "." := by
  rw [toString_eq, hslashes, hparts]
  rfl

theorem toString_of_parts {p : PathName} (hp : p.Proper) (hparts : p.parts ≠ []) :
    toString p = String.ofList (List.replicate p.slashes '/') ++ "/".intercalate p.parts := by
  rw [toString_eq, if_neg]
  intro hempty
  have hsplit := slashParts_slashes_append p.slashes ("/".intercalate p.parts)
  rw [slashParts_intercalate (fun part hpart => (hp part hpart).2.2) hparts, beq_iff_eq.mp hempty,
    show slashParts "" = [""] from rfl] at hsplit
  obtain ⟨part, hpart⟩ := List.exists_mem_of_ne_nil _ hparts
  have hmem : part ∈ [""] := by
    rw [hsplit]
    exact List.mem_append_right _ hpart
  exact (hp part hpart).1 (List.mem_singleton.mp hmem)

theorem slashParts_toString {p : PathName} (hp : p.Proper) (hparts : p.parts ≠ []) :
    slashParts (toString p) = List.replicate p.slashes "" ++ p.parts := by
  rw [toString_of_parts hp hparts, slashParts_slashes_append,
    slashParts_intercalate (fun part hpart => (hp part hpart).2.2) hparts]

/-- What is written is read again. -/
theorem parts_ofString_toString {p : PathName} (hp : p.Proper) :
    (ofString (toString p)).parts = p.parts := by
  by_cases hparts : p.parts = []
  · rw [hparts]
    by_cases hslashes : p.slashes = 0
    · rw [toString_of_nothing hslashes hparts]
      rfl
    · change (slashParts (toString p)).filter _ = _
      rw [toString_of_slashes hslashes, hparts, slashParts_slashes_append, List.filter_eq_nil_iff]
      intro part hpart
      rcases List.mem_append.mp hpart with hpart | hpart
      · simp [List.eq_of_mem_replicate hpart]
      · rw [show slashParts ("/".intercalate []) = [""] from rfl] at hpart
        simp [List.mem_singleton.mp hpart]
  · change (slashParts (toString p)).filter _ = _
    rw [slashParts_toString hp hparts, List.filter_append, List.filter_eq_nil_iff.mpr,
      List.filter_eq_self.mpr, List.nil_append]
    · intro part hpart
      simpa using ⟨(hp part hpart).1, (hp part hpart).2.1⟩
    · intro part hpart
      simp [List.eq_of_mem_replicate hpart]

theorem isAbsolute_ofString_toString {p : PathName} (hp : p.Proper) :
    (ofString (toString p)).isAbsolute = p.isAbsolute := by
  rw [TestMigration.isAbsolute_ofString, Bool.eq_iff_iff, String.startsWith_string_iff]
  unfold isAbsolute
  rw [bne_iff_ne]
  constructor
  · rintro ⟨rest, hrest⟩ hslashes
    by_cases hparts : p.parts = []
    · rw [toString_of_nothing hslashes hparts] at hrest
      cases hrest
    · have hpath : toString p = "" ++ "/" ++ String.ofList rest := by
        rw [← String.toList_inj, ← hrest]
        simp
      have hsplit := slashParts_toString hp hparts
      rw [hpath, slashParts_append, hslashes, List.replicate_zero, List.nil_append] at hsplit
      have hempty : "" ∈ p.parts := by
        rw [← hsplit]
        exact List.mem_append_left _ List.mem_cons_self
      exact (hp "" hempty).1 rfl
  · intro hslashes
    obtain ⟨n, hn⟩ := Nat.exists_eq_succ_of_ne_zero hslashes
    rw [toString_of_slashes hslashes, hn]
    simp [List.replicate_succ]

/-- Bytes of names, each with a slash. -/
def weight (names : List String) : Nat :=
  names.foldr (fun name rest => name.utf8ByteSize + 1 + rest) 0

theorem size_intercalate {names : List String} (h : names ≠ []) :
    ("/".intercalate names).utf8ByteSize + 1 = weight names := by
  induction names with
  | nil => exact absurd rfl h
  | cons first rest ih =>
    cases rest with
    | nil => simp [weight]
    | cons second rest =>
      have hrest := ih (by simp)
      rw [String.intercalate_cons_cons, String.utf8ByteSize_append, String.utf8ByteSize_append]
      unfold weight at hrest ⊢
      rw [List.foldr_cons, ← hrest, show "/".utf8ByteSize = 1 from rfl]
      omega

theorem size_slashes (n : Nat) : (String.ofList (List.replicate n '/')).utf8ByteSize = n := by
  induction n with
  | zero => rfl
  | succ n ih =>
    rw [List.replicate_succ', String.ofList_append, String.utf8ByteSize_append, ih]
    rfl

theorem weight_slashParts (s : String) : weight (slashParts s) = s.utf8ByteSize + 1 := by
  rw [← size_intercalate (slashParts_ne_nil s), intercalate_slashParts]

theorem weight_filter_le (f : String → Bool) (names : List String) :
    weight (names.filter f) ≤ weight names := by
  unfold weight
  induction names with
  | nil => exact Nat.le_refl _
  | cons first rest ih =>
    rw [List.foldr_cons]
    cases hf : f first with
    | true =>
      rw [List.filter_cons_of_pos hf, List.foldr_cons]
      omega
    | false =>
      rw [List.filter_cons_of_neg (by simp [hf])]
      omega

/-- A path is not longer as it is read than as it was given. -/
theorem size_toString_ofString {s : String} (h : s ≠ "") :
    (toString (ofString s)).utf8ByteSize ≤ s.utf8ByteSize := by
  obtain ⟨n, rest, hs, hslashes⟩ : ∃ n rest, s = String.ofList (List.replicate n '/') ++ rest ∧
      (ofString s).slashes ≤ n := by
    refine ⟨(s.toList.takeWhile (· == '/')).length, String.ofList (s.toList.dropWhile (· == '/')), ?_, ?_⟩
    · have hall : s.toList.takeWhile (· == '/') =
          List.replicate (s.toList.takeWhile (· == '/')).length '/' :=
        List.eq_replicate_iff.mpr
          ⟨rfl, fun c hc => beq_iff_eq.mp (List.all_eq_true.mp List.all_takeWhile c hc)⟩
      rw [← hall, ← String.ofList_append, List.takeWhile_append_dropWhile, String.ofList_toList]
    · change leadingSlashes _ _ ≤ _
      unfold leadingSlashes
      split
      · omega
      · omega
      · rename_i hzero _
        exact Nat.one_le_iff_ne_zero.mpr hzero
  have hsplit : slashParts s = List.replicate n "" ++ slashParts rest := by
    rw [hs, slashParts_slashes_append]
  have hparts : (ofString s).parts =
      (slashParts rest).filter fun part => part != "" && part != "." := by
    rw [parts_ofString, hsplit, List.filter_append, List.filter_eq_nil_iff.mpr, List.nil_append]
    intro part hpart
    simp [List.eq_of_mem_replicate hpart]
  have hsize : s.utf8ByteSize = n + rest.utf8ByteSize := by
    rw [hs, String.utf8ByteSize_append, size_slashes]
  have hnames : ("/".intercalate (ofString s).parts).utf8ByteSize ≤ rest.utf8ByteSize := by
    by_cases hnone : (ofString s).parts = []
    · rw [hnone]
      exact Nat.zero_le _
    · have hfilter := weight_filter_le (fun part => part != "" && part != ".") (slashParts rest)
      rw [← hparts, ← size_intercalate hnone, weight_slashParts] at hfilter
      exact Nat.le_of_succ_le_succ hfilter
  rw [toString_eq]
  split
  · exact Nat.one_le_iff_ne_zero.mpr (by simpa using h)
  · rw [String.utf8ByteSize_append, size_slashes]
    omega

end PathName

namespace Disk

variable {d : Disk} {p : PathName} {place : Route}

/-- Where the parts of a path are followed from. -/
def base (d : Disk) (p : PathName) : Route := if p.isAbsolute then [] else d.cwd

theorem start_toString (hp : p.Proper) : d.start (toString p) = d.base p := by
  unfold start base
  rw [← isAbsolute_ofString, PathName.isAbsolute_ofString_toString hp]

theorem follow_of_skipped {names : List String} (h : ∀ name ∈ names, name = "" ∨ name = ".")
    {r : Route} (hplace : d.get? r = some .directory) : d.follow r names = .ok r := by
  induction names with
  | nil => rfl
  | cons name rest ih =>
    rw [follow_cons_iff]
    exact ⟨hplace, .inl ⟨h name List.mem_cons_self,
      ih fun name hname => h name (List.mem_cons_of_mem _ hname)⟩⟩

/-- A path leads to the same place as it is given and as it is read. -/
theorem find_toString_ofString {path : String} (h : d.find path = .ok place) :
    d.find (toString (PathName.ofString path)) = .ok place := by
  obtain ⟨hempty, hclean, hshort, hfollow⟩ := find_ok_iff.mp h
  have hproper := PathName.proper_ofString path
  refine find_ok_iff.mpr ⟨Migration.toString_ne_empty _, (PathName.clean_ofString hclean).toString,
    ?_, ?_⟩
  · exact Nat.le_trans (PathName.size_toString_ofString hempty) hshort
  · have hbase : d.start path = d.base (PathName.ofString path) := by
      unfold start base
      rw [← isAbsolute_ofString]
    rw [hbase] at hfollow
    have hparts : d.follow (d.base (PathName.ofString path)) (PathName.ofString path).parts =
        .ok place := follow_filter hfollow
    rw [start_toString hproper]
    by_cases hnone : (PathName.ofString path).parts = []
    · -- nothing is left to follow, so that the path leads to where it begins
      have hopen : d.get? (d.base (PathName.ofString path)) = some .directory := by
        cases hsplit : slashParts path with
        | nil => exact absurd hsplit (slashParts_ne_nil path)
        | cons first rest =>
          rw [hsplit] at hfollow
          exact (follow_cons_iff.mp hfollow).1
      have hskipped : (PathName.ofString (toString (PathName.ofString path))).parts = [] := by
        rw [PathName.parts_ofString_toString hproper, hnone]
      rw [PathName.parts_ofString, List.filter_eq_nil_iff] at hskipped
      have hplace : d.base (PathName.ofString path) = place := by
        rw [hnone] at hparts
        exact Except.ok.inj hparts
      rw [← hplace]
      refine follow_of_skipped (fun name hname => ?_) hopen
      by_contra hkept
      exact hskipped name hname (by simpa using hkept)
    · rw [PathName.slashParts_toString hproper hnone, follow_append_iff]
      refine ⟨_, ?_, hparts⟩
      cases hslashes : (PathName.ofString path).slashes with
      | zero => rfl
      | succ n =>
        have hroot : d.base (PathName.ofString path) = [] := by
          unfold base PathName.isAbsolute
          rw [hslashes]
          rfl
        rw [hroot]
        exact follow_of_skipped (fun name hname => .inl (List.eq_of_mem_replicate hname)) rfl

end Disk

/-! ## Names and dialects -/

open Disk (joinPath joinPath_eq)

theorem endsWith_behind_slash {front name suffix : String} (hsuffix : Slashless suffix) :
    (front ++ "/" ++ name).endsWith suffix = name.endsWith suffix := by
  rw [Bool.eq_iff_iff, endsWith_iff, endsWith_iff, String.toList_append, String.toList_append,
    show "/".toList = ['/'] from rfl, List.append_assoc, List.singleton_append]
  constructor
  · intro h
    rcases List.suffix_or_suffix_of_suffix h (List.suffix_append front.toList _) with hshort | hlong
    · rcases List.suffix_cons_iff.mp hshort with hwhole | hname
      · exact absurd (hwhole ▸ List.mem_cons_self) hsuffix
      · exact hname
    · exact absurd (hlong.subset List.mem_cons_self) hsuffix
  · intro h
    exact h.trans ((List.suffix_cons '/' _).trans (List.suffix_append _ _))

/-- The dialect of a script is chosen by the last part of its path. -/
theorem dialectFor_behind_slash (front name : String) :
    dialectFor (some (front ++ "/" ++ name)) = dialectFor (some name) := by
  have hends : ∀ suffix : String, Slashless suffix →
      (front ++ "/" ++ name).endsWith suffix = name.endsWith suffix :=
    fun _ hsuffix => endsWith_behind_slash hsuffix
  unfold dialectFor
  dsimp only
  rw [hends _ (by decide), hends _ (by decide), hends _ (by decide), hends _ (by decide)]

theorem dialectFor_joinPath {dir name : String} (hdir : dir ≠ "") (hname : Slashless name) :
    dialectFor (some (joinPath dir name)) = dialectFor (some name) := by
  obtain ⟨front, hjoin, -⟩ := joinPath_eq hdir
  rw [hjoin name (startsWith_of_slashless hname), dialectFor_behind_slash]

theorem dialectFor_toString {p : PathName} (hp : p.Proper) {front : List String} {name : String}
    (hparts : p.parts = front ++ [name]) :
    dialectFor (some (toString p)) = dialectFor (some name) := by
  rw [PathName.toString_of_parts hp (by simp [hparts]), hparts]
  cases front with
  | nil =>
    rw [List.nil_append, String.intercalate_singleton]
    cases p.slashes with
    | zero => simp
    | succ n =>
      rw [List.replicate_succ', String.ofList_append]
      exact dialectFor_behind_slash _ name
  | cons first rest =>
    rw [String.intercalate_append_of_ne_nil (by simp) (by simp), String.intercalate_singleton,
      ← String.append_assoc, ← String.append_assoc]
    exact dialectFor_behind_slash _ name

/-! ## Paths below a directory -/

theorem leadingSlashes_append {front path : List Char}
    (h : path.takeWhile (· == '/') = [] ∨ front.takeWhile (· == '/') ≠ front) :
    leadingSlashes (· == '/') (front ++ path) = leadingSlashes (· == '/') front := by
  have htake : (front ++ path).takeWhile (· == '/') = front.takeWhile (· == '/') := by
    rw [List.takeWhile_append]
    split
    · rename_i hall
      have hwhole := List.IsPrefix.eq_of_length (List.takeWhile_prefix _) hall
      rw [h.resolve_right (not_not_intro hwhole), List.append_nil, hwhole]
    · rfl
  unfold leadingSlashes
  rw [htake]

namespace PathName

variable {dir : String} {names : List String}

theorem slashes_joinPath (hdir : dir ≠ "") (hnames : ∀ name ∈ names, LegalName name) :
    (ofString (joinPath dir ("/".intercalate names))).slashes = (ofString dir).slashes := by
  have hrelative := relative_intercalate hnames
  obtain ⟨front, hjoin, hfront⟩ := joinPath_eq hdir
  change leadingSlashes _ (joinPath dir ("/".intercalate names)).toList =
    leadingSlashes _ dir.toList
  rw [hjoin _ hrelative]
  rcases hfront with ⟨rfl, hends⟩ | rfl
  · rw [String.append_assoc, String.toList_append]
    refine leadingSlashes_append (.inr fun hall => ?_)
    have hchars : dir.toList ≠ [] := by simpa using hdir
    have hslashes : dir.toList.all (· == '/') = true := by
      rw [← hall]
      exact List.all_takeWhile
    have hlast : dir.toList.getLast hchars = '/' :=
      beq_iff_eq.mp (List.all_eq_true.mp hslashes _ (List.getLast_mem hchars))
    have hslash : dir.endsWith "/" = true := by
      rw [endsWith_iff]
      exact ⟨dir.toList.dropLast, by
        rw [show "/".toList = ['/'] from rfl, ← hlast, List.dropLast_append_getLast]⟩
    rw [hends] at hslash
    cases hslash
  · rw [String.toList_append]
    refine leadingSlashes_append (.inl ?_)
    cases hchars : ("/".intercalate names).toList with
    | nil => rfl
    | cons c rest =>
      rw [List.takeWhile_cons_of_neg]
      intro hc
      rw [Bool.eq_false_iff, ne_eq, String.startsWith_string_iff, hchars,
        beq_iff_eq.mp hc] at hrelative
      exact hrelative ⟨rest, rfl⟩

/-- Names below a directory are read as parts behind those of the directory. -/
theorem ofString_joinPath (hdir : dir ≠ "") (hempty : names ≠ [])
    (hnames : ∀ name ∈ names, LegalName name) :
    ofString (joinPath dir ("/".intercalate names)) =
      { ofString dir with parts := (ofString dir).parts ++ names } := by
  obtain ⟨front, hjoin, hfront⟩ := joinPath_eq hdir
  have hkept : names.filter (fun part => part != "" && part != ".") = names := by
    rw [List.filter_eq_self]
    intro name hname
    simpa using ⟨(hnames name hname).nonempty, (hnames name hname).notDot⟩
  have hsplit : slashParts (joinPath dir ("/".intercalate names)) = slashParts front ++ names := by
    rw [hjoin _ (relative_intercalate hnames), slashParts_append,
      slashParts_intercalate (fun name hname => (hnames name hname).slashless) hempty]
  have hdirParts : (ofString dir).parts =
      (slashParts front).filter fun part => part != "" && part != "." := by
    rw [parts_ofString]
    rcases hfront with ⟨rfl, -⟩ | rfl
    · rfl
    · rw [show front ++ "/" = front ++ "/" ++ "" by simp, slashParts_append, List.filter_append,
        show slashParts "" = [""] from rfl]
      simp
  have hparts : (ofString (joinPath dir ("/".intercalate names))).parts =
      (ofString dir).parts ++ names := by
    rw [parts_ofString, hsplit, List.filter_append, hkept, hdirParts]
  dsimp only
  rw [← slashes_joinPath hdir hnames, ← hparts]

end PathName

end TestMigration
