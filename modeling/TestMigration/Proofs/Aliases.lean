import TestMigration.Proofs.Searches

/-! Files that a list of sources stands for under several names. Names that are listed twice are dropped,
but only names: a file that is given once by itself and once through its directory is listed once
just if both are written alike. -/

namespace TestMigration

namespace Disk

variable {d : Disk} {p : Route} {dir path name : String} {names front : List String}

/-- A path and the names behind it, with a slash after each. -/
def trail (dir : String) (names : List String) : String :=
  joinPath dir "" ++ String.join (names.map (· ++ "/"))

theorem trail_append (dir : String) (names more : List String) :
    trail dir (names ++ more) = trail dir names ++ String.join (more.map (· ++ "/")) := by
  unfold trail
  rw [List.map_append, String.join_append, String.append_assoc]

theorem joinPath_split (hdir : dir ≠ "") (hpath : path.startsWith "/" = false) :
    joinPath dir path = joinPath dir "" ++ path := by
  obtain ⟨before, hjoin, -⟩ := joinPath_eq hdir
  rw [hjoin path hpath, hjoin "" (by decide), String.append_empty]

/-- A path that does not end with a slash is one behind which there is nothing. -/
theorem trail_nil (hslash : dir.endsWith "/" = false) (hdir : dir ≠ "") : trail dir [] = dir ++ "/" := by
  unfold trail joinPath
  simp [hslash, hdir]

theorem trail_of_slash (hslash : dir.endsWith "/" = true) : trail dir [] = dir := by
  unfold trail joinPath
  rw [if_neg (by decide), hslash, if_pos (by simp)]
  simp

theorem intercalate_slash (hnames : names ≠ []) :
    "/".intercalate names ++ "/" = String.join (names.map (· ++ "/")) := by
  induction names with
  | nil => exact absurd rfl hnames
  | cons first rest ih =>
    cases rest with
    | nil => simp
    | cons second rest =>
      rw [String.intercalate_cons_cons, String.append_assoc, ih (by simp)]
      simp

theorem not_endsWith_slash (hpath : path.endsWith "/" = false) (hne : path ≠ "") (before : String) :
    (before ++ path).endsWith "/" = false := by
  rw [Bool.eq_false_iff] at hpath ⊢
  intro hends
  rw [ne_eq, endsWith_iff] at hpath
  rw [endsWith_iff, String.toList_append] at hends
  refine hpath (List.suffix_of_suffix_length_le hends (List.suffix_append _ _) ?_)
  exact List.length_pos_iff.mpr (mt String.toList_eq_nil_iff.mp hne)

theorem intercalate_not_endsWith (hlegal : ∀ n ∈ names, LegalName n) (hnames : names ≠ []) :
    ("/".intercalate names).endsWith "/" = false := by
  rw [Bool.eq_false_iff]
  intro hends
  obtain ⟨before, hbefore⟩ := endsWith_iff.mp hends
  have hpath : "/".intercalate names = String.ofList before ++ "/" ++ "" := by
    rw [← String.toList_inj, ← hbefore]
    simp
  have hsplit := slashParts_intercalate (fun n hn => (hlegal n hn).slashless) hnames
  rw [hpath, slashParts_append] at hsplit
  have hempty : "" ∈ names := by
    rw [← hsplit]
    exact List.mem_append_right _ List.mem_cons_self
  exact (hlegal "" hempty).nonempty rfl

theorem intercalate_ne_empty (hlegal : ∀ n ∈ names, LegalName n) (hnames : names ≠ []) :
    "/".intercalate names ≠ "" := by
  intro hempty
  have hsplit := slashParts_intercalate (fun n hn => (hlegal n hn).slashless) hnames
  rw [hempty, show slashParts "" = [""] from rfl] at hsplit
  exact (hlegal "" (hsplit ▸ List.mem_singleton_self _)).nonempty rfl

/-- Names that are joined to a directory stand behind it. -/
theorem trail_joinPath (hdir : dir ≠ "") (hlegal : ∀ n ∈ names, LegalName n) :
    trail (joinPath dir ("/".intercalate names)) [] = trail dir names := by
  have hrelative := relative_intercalate hlegal
  by_cases hnames : names = []
  · subst hnames
    have hends : (joinPath dir "").endsWith "/" = true := by
      obtain ⟨before, hjoin, -⟩ := joinPath_eq hdir
      rw [hjoin "" (by decide), endsWith_iff]
      exact ⟨before.toList, by simp⟩
    rw [String.intercalate_nil, trail_of_slash hends]
    simp [trail]
  · have hends := not_endsWith_slash (intercalate_not_endsWith hlegal hnames)
      (intercalate_ne_empty hlegal hnames) (joinPath dir "")
    rw [← joinPath_split hdir hrelative] at hends
    rw [trail_nil hends (joinPath_ne_empty hdir hrelative), joinPath_split hdir hrelative,
      String.append_assoc, intercalate_slash hnames, trail]

/-- The expansion spells a directory as it is given, unless that ends with more than one slash. -/
theorem Spells.trail {above : String} (h : Spells above dir) (hdir : dir.endsWith "//" = false) :
    trail above [] = trail dir [] := by
  have hends : ∀ before : List Char, dir.toList ≠ before ++ "//".toList := by
    rintro before hbefore
    rw [Bool.eq_false_iff, ne_eq, endsWith_iff] at hdir
    exact hdir ⟨before, hbefore.symm⟩
  obtain ⟨n, hsame⟩ := h.same
  match n with
  | 0 => simp [hsame]
  | 1 =>
    have habove : above.endsWith "/" = false := by
      rw [Bool.eq_false_iff]
      intro habove
      obtain ⟨before, hbefore⟩ := endsWith_iff.mp habove
      refine hends before ?_
      rw [hsame, String.toList_append, ← hbefore]
      simp
    have hslash : dir.endsWith "/" = true := by
      rw [endsWith_iff, hsame]
      exact ⟨above.toList, by simp⟩
    rw [trail_nil habove h.nonempty, trail_of_slash hslash, hsame]
    rfl
  | n + 2 =>
    refine absurd ?_ (hends (above.toList ++ List.replicate n '/'))
    rw [hsame, String.toList_append, String.toList_ofList, List.append_assoc,
      show "//".toList = List.replicate 2 '/' from rfl, List.replicate_append_replicate]

/-- A file is no path that ends with a slash. -/
theorem endsWith_of_isFile (h : d.isFile path = true) : path.endsWith "/" = false := by
  obtain ⟨p, bytes, hfind, hitem⟩ := find_of_isFile h
  obtain ⟨-, -, -, hfollow⟩ := find_ok_iff.mp hfind
  rw [Bool.eq_false_iff]
  intro hslash
  obtain ⟨before, hbefore⟩ := endsWith_iff.mp hslash
  have hpath : path = String.ofList before ++ "/" ++ "" := by
    rw [← String.toList_inj, ← hbefore]
    simp
  rw [hpath, slashParts_append, show slashParts "" = [""] from rfl, follow_append_iff] at hfollow
  obtain ⟨q, -, hlast⟩ := hfollow
  obtain ⟨hdirectory, ⟨-, hsame⟩ | ⟨hname, -⟩⟩ := follow_cons_iff.mp hlast
  · cases hsame
    rw [hitem] at hdirectory
    cases hdirectory
  · exact hname (.inl rfl)

theorem ne_empty_of_isFile (h : d.isFile path = true) : path ≠ "" := by
  obtain ⟨p, bytes, hfind, -⟩ := find_of_isFile h
  exact (find_ok_iff.mp hfind).1

theorem find_of_isDirectory (h : d.isDirectory path = true) :
    ∃ p, d.find path = .ok p ∧ d.get? p = some .directory := by
  unfold isDirectory item? at h
  cases hp : d.find path with
  | error f =>
    rw [hp] at h
    cases h
  | ok p =>
    rw [hp] at h
    simp only [Except.toOption, Option.bind_some] at h
    split at h
    · rename_i hplace
      exact ⟨p, rfl, hplace⟩
    · cases h

/-! ## What the expansion finds -/

variable {above pattern : String} {recurse : Bool}

theorem Enters.trail (tidy : d.Tidy) (habove : above ≠ "") (h : d.Enters recurse p above dir front) :
    trail dir [] = trail above front := by
  have hlegal := h.legal tidy
  obtain ⟨-, -, hdir⟩ := h
  cases recurse with
  | false =>
    obtain ⟨rfl, rfl⟩ : front = [] ∧ dir = above := hdir
    rfl
  | true =>
    obtain rfl : dir = joinPath above ("/".intercalate front) := hdir
    exact trail_joinPath habove hlegal

/-- A path that leads to or below another one, and is written as that one with the names behind it. -/
def Extends (d : Disk) (dir path : String) : Prop :=
  ∃ p names, d.find dir = .ok p ∧ d.find path = .ok (p ++ names) ∧ trail path [] = trail dir names

/-- Whatever the expansion finds is written as the directory with names behind it. -/
theorem extends_of_mem_expansion (tidy : d.Tidy) (hdir : d.find dir = .ok p)
    (hplace : d.get? p = some .directory) (hplain : NamePattern.isPattern dir = false)
    (hslash : dir.endsWith "//" = false) (hpattern : FilePattern pattern)
    (hpath : path ∈ Discovery.expansion d recurse dir pattern) (hfile : d.isFile path = true) :
    d.Extends dir path := by
  obtain ⟨above, hspells, hmem⟩ := mem_expansion recurse tidy hdir hplace hplain hpattern
  obtain ⟨dir', front, name, henters, hname, rfl⟩ := (hmem path).mp hpath
  have hslashless := slashless_of_mem_namesFor tidy hpattern hname
  have hnonempty := henters.nonempty tidy hspells.nonempty
  obtain ⟨q, bytes, hfind, -⟩ := find_of_isFile hfile
  have hdir' := henters.find tidy (hspells.find hdir) hplace
    (Nat.le_trans (size_le_joinPath hnonempty (startsWith_of_slashless hslashless))
      (find_ok_iff.mp hfind).2.2.1)
  obtain ⟨⟨bytes, hitem⟩, -, hshort⟩ := (mem_namesFor tidy hdir' hpattern).mp ⟨hname, hfile⟩
  have hlegal := (tidy.named _ hitem).2 name (List.mem_append_right _ List.mem_cons_self)
  refine ⟨p, front ++ [name], hdir, ?_, ?_⟩
  · rw [← List.append_assoc]
    exact find_joinPath_name tidy hdir' hitem hshort
  · have hone : Disk.trail (joinPath dir' ("/".intercalate [name])) [] = Disk.trail dir' [name] :=
      trail_joinPath hnonempty (by simpa using hlegal)
    rw [String.intercalate_singleton] at hone
    calc Disk.trail (joinPath dir' name) [] = Disk.trail dir' [] ++ (name ++ "/") := by
          rw [hone]
          simp [Disk.trail]
      _ = Disk.trail above front ++ (name ++ "/") := by rw [henters.trail tidy hspells.nonempty]
      _ = Disk.trail above [] ++ String.join ((front ++ [name]).map (· ++ "/")) := by
          simp [Disk.trail, String.append_assoc]
      _ = Disk.trail dir (front ++ [name]) := by
          rw [hspells.trail hslash]
          simp [Disk.trail]

/-! ## Sources that are written alike -/

/-- If a path leads to or below another one, it is written as that one with the names behind it; a slash
at the end makes no difference. -/
def spellsAlike (d : Disk) (above below : String) : Bool :=
  match d.find above, d.find below with
  | .ok p, .ok q => !p.isPrefixOf q || trail below [] == trail above (q.drop p.length)
  | _, _ => true

theorem trail_of_spellsAlike (h : d.spellsAlike dir path = true) (hdir : d.find dir = .ok p)
    (hpath : d.find path = .ok (p ++ names)) : trail path [] = trail dir names := by
  unfold spellsAlike at h
  rw [hdir, hpath] at h
  have hbegins : p.isPrefixOf (p ++ names) = true := List.isPrefixOf_iff_prefix.mpr (List.prefix_append _ _)
  simpa [hbegins] using h

/-- Paths behind two that are written alike are the same if they lead to the same place. -/
theorem trail_of_extends {dir' path' : String} {q : Route} {names' : List String}
    (halike : d.spellsAlike dir dir' = true) (hdir : d.find dir = .ok p) (hdir' : d.find dir' = .ok q)
    (hpath : trail path [] = trail dir names) (hpath' : trail path' [] = trail dir' names')
    (hbegins : p <+: q) (hsame : p ++ names = q ++ names') : trail path [] = trail path' [] := by
  obtain ⟨between, rfl⟩ := hbegins
  rw [List.append_assoc] at hsame
  obtain rfl := List.append_cancel_left hsame
  have hbetween := trail_of_spellsAlike halike hdir hdir'
  calc trail path [] = trail dir between ++ String.join (names'.map (· ++ "/")) := by
        rw [hpath, trail_append]
    _ = trail dir' [] ++ String.join (names'.map (· ++ "/")) := by rw [hbetween]
    _ = trail dir' names' := (trail_append dir' [] names').symm
    _ = trail path' [] := hpath'.symm

theorem eq_of_extends {dir' path' : String} {q : Route} (halike : d.spellsAlike dir dir' = true)
    (halike' : d.spellsAlike dir' dir = true) (hpath : d.Extends dir path)
    (hpath' : d.Extends dir' path') (hfile : d.isFile path = true) (hfile' : d.isFile path' = true)
    (hplace : d.find path = .ok q) (hplace' : d.find path' = .ok q) : path = path' := by
  obtain ⟨p, names, hdir, hfind, htrail⟩ := hpath
  obtain ⟨p', names', hdir', hfind', htrail'⟩ := hpath'
  have hsame : p ++ names = p' ++ names' := by
    have heq := hfind.symm.trans (hplace.trans (hplace'.symm.trans hfind'))
    exact Except.ok.inj heq
  have htrails : trail path [] = trail path' [] := by
    rcases List.prefix_or_prefix_of_prefix ⟨names, rfl⟩ ⟨names', hsame.symm⟩ with hbegins | hbegins
    · exact trail_of_extends halike hdir hdir' htrail htrail' hbegins hsame
    · exact (trail_of_extends halike' hdir' hdir htrail' htrail hbegins hsame.symm).symm
  rw [trail_nil (endsWith_of_isFile hfile) (ne_empty_of_isFile hfile),
    trail_nil (endsWith_of_isFile hfile') (ne_empty_of_isFile hfile')] at htrails
  have hchars := congrArg String.toList htrails
  rw [String.toList_append, String.toList_append] at hchars
  exact String.toList_inj.mp (List.append_cancel_right hchars)

end Disk

namespace Discovery

open Disk

variable {d d' : Disk} {s : Settings} {sources files : List String} {root : Option String}

/-- The paths that are given: the root directory, if there is one, and the sources. -/
def given (sources : List String) (root : Option String) : List String := root.toList ++ sources

/-- Paths that are written alike, where one leads to or below another. None of the directories is a
pattern or ends with more than one slash. -/
structure WrittenAlike (d : Disk) (paths : List String) : Prop where
  alike : ∀ a ∈ paths, ∀ b ∈ paths, d.spellsAlike a b = true
  plain : ∀ a ∈ paths, d.isDirectory a = true → NamePattern.isPattern a = false
  slash : ∀ a ∈ paths, d.isDirectory a = true → a.endsWith "//" = false

theorem nodup_distinct {α : Type} [BEq α] [LawfulBEq α] (xs : List α) : (distinct xs).Nodup := by
  have hloop : ∀ xs seen : List α, seen.Nodup →
      (xs.foldl (fun seen x => if seen.contains x then seen else x :: seen) seen).Nodup := by
    intro xs
    induction xs with
    | nil => exact fun seen hseen => hseen
    | cons x rest ih =>
      intro seen hseen
      rw [List.foldl_cons]
      refine ih _ ?_
      split
      · exact hseen
      · rename_i hfresh
        exact List.nodup_cons.mpr ⟨mt List.contains_iff_mem.mpr hfresh, hseen⟩
  exact List.nodup_reverse.mpr (hloop xs [] List.nodup_nil)

/-- What a filter keeps was there before. -/
theorem mem_of_filterM {f : String → Filing Bool} (hf : ∀ a, Reads (f a)) {as kept : List String}
    (h : Leaves (as.filterM f) d (.ok kept) d') {a : String} (ha : a ∈ kept) : a ∈ as := by
  obtain ⟨kept', hkept', hmem⟩ := Filing.filterM_answers (Filing.answers_of_filterM hf h)
  cases (h.unique hkept').1
  exact ((hmem a).mp ha).1

theorem mem_of_mapM {f : String → Filing (List String)} (hf : ∀ a, Reads (f a))
    {as : List String} {lists : List (List String)} (h : Leaves (as.mapM f) d (.ok lists) d')
    {list : List String} (hlist : list ∈ lists) : ∃ a ∈ as, Leaves (f a) d (.ok list) d := by
  induction as generalizing lists d' with
  | nil =>
    cases h.pure.1
    cases hlist
  | cons first rest ih =>
    rw [List.mapM_cons] at h
    obtain ⟨list', t, hfirst, hrest⟩ := h.bind_ok
    cases hf first d _ t hfirst
    obtain ⟨lists', t, hlists, hend⟩ := hrest.bind_ok
    cases hend.pure.1
    rcases List.mem_cons.mp hlist with rfl | hlist
    · exact ⟨first, List.mem_cons_self, hfirst⟩
    · obtain ⟨a, ha, hleaves⟩ := ih hlists hlist
      exact ⟨a, List.mem_cons_of_mem _ ha, hleaves⟩

/-- Every file that is listed was given itself or stands in a directory that was given. -/
theorem mem_resolved (h : Leaves (resolve sources root s) d (.ok files) d') {file : String}
    (hfile : file ∈ files) : (file ∈ sources ∧ d.isFile file = true) ∨
      ∃ dir ∈ given sources root, d.isDirectory dir = true ∧
        file ∈ matching d dir s.patterns (s.flag .recurse) := by
  obtain ⟨found, t, hfound, hend⟩ := h.get_bind.bind_ok
  cases hend.pure.1
  rw [mem_distinct, List.mem_append] at hfile
  rcases hfile with hsource | hfound'
  · exact .inl (by simpa using hsource)
  · obtain ⟨list, hlist, hmem⟩ := List.mem_flatten.mp hfound'
    obtain ⟨dir, hdir, hleaves⟩ := mem_of_mapM (fun dir => reads_stepwise.filterM
      (Migration.reads_keeps s) _) hfound hlist
    refine .inr ⟨dir, ?_⟩
    have hdirectory : dir ∈ given sources root ∧ d.isDirectory dir = true := by
      unfold given
      rcases List.mem_append.mp hdir with hroot | hsource
      · cases root with
        | none => cases hroot
        | some r =>
          dsimp only at hroot
          split at hroot
          · rename_i hr
            obtain rfl := List.mem_singleton.mp hroot
            exact ⟨by simp, by simpa using (Bool.and_eq_true_iff.mp hr).2⟩
          · cases hroot
      · obtain ⟨hsource, hdirectory⟩ := List.mem_filter.mp hsource
        exact ⟨List.mem_append_right _ hsource, hdirectory⟩
    exact ⟨hdirectory.1, hdirectory.2, mem_of_filterM (Migration.reads_keeps s) hleaves hmem⟩

/-- Every file that is listed is written as a given path with names behind it. -/
theorem extends_of_resolved (tidy : d.Tidy) (patterns : ∀ pattern ∈ s.patterns, FilePattern pattern)
    (written : WrittenAlike d (given sources root))
    (h : Leaves (resolve sources root s) d (.ok files) d') {file : String} (hfile : file ∈ files) :
    d.isFile file = true ∧ ∃ a ∈ given sources root, d.Extends a file := by
  rcases mem_resolved h hfile with ⟨hsource, hisFile⟩ | ⟨dir, hdir, hdirectory, hmatching⟩
  · obtain ⟨p, bytes, hfind, -⟩ := find_of_isFile hisFile
    exact ⟨hisFile, file, List.mem_append_right _ hsource, p, [], hfind, by simpa using hfind, rfl⟩
  · obtain ⟨pattern, hpattern, hexpansion, hisFile⟩ := mem_matching.mp hmatching
    obtain ⟨p, hfind, hplace⟩ := find_of_isDirectory hdirectory
    exact ⟨hisFile, dir, hdir, extends_of_mem_expansion tidy hfind hplace (written.plain dir hdir hdirectory)
      (written.slash dir hdir hdirectory) (patterns pattern hpattern) hexpansion hisFile⟩

/-- No name is listed twice. And no file is listed under two names, if the paths that are given are
written alike where one leads to or below another, and the patterns are names of files. -/
theorem each_listed_once (tidy : d.Tidy) (h : Leaves (resolve sources root s) d (.ok files) d') :
    files.Nodup ∧
      (WrittenAlike d (given sources root) → (∀ pattern ∈ s.patterns, FilePattern pattern) →
        (files.map (placeOf d.cwd)).Nodup) := by
  have hnodup : files.Nodup := by
    obtain ⟨found, t, -, hend⟩ := h.get_bind.bind_ok
    cases hend.pure.1
    exact nodup_distinct _
  refine ⟨hnodup, fun written patterns => List.Nodup.map_on ?_ hnodup⟩
  intro file hfile file' hfile' hplace
  have hcwd : ".." ∉ d.cwd := fun hup => (tidy.cwd _ hup).notUp rfl
  obtain ⟨hisFile, a, ha, hextends⟩ := extends_of_resolved tidy patterns written h hfile
  obtain ⟨hisFile', a', ha', hextends'⟩ := extends_of_resolved tidy patterns written h hfile'
  obtain ⟨p, -, hfind, -⟩ := find_of_isFile hisFile
  obtain ⟨p', -, hfind', -⟩ := find_of_isFile hisFile'
  have hsame : p = p' := by rw [find_place hcwd hfind, find_place hcwd hfind', hplace]
  subst hsame
  exact eq_of_extends (written.alike a ha a' ha') (written.alike a' ha' a ha) hextends hextends'
    hisFile hisFile' hfind hfind'

/-- Two files that are given by themselves and one of them in a directory that is given twice. -/
theorem each_listed_once_beside :
    Leaves (resolve ["d/.h/b.test.js", "d/a.test.js", "d/"] (some "d") oneKind) besideHidden
        (.ok ["d/.h/b.test.js", "d/a.test.js"]) besideHidden ∧
      (["d/.h/b.test.js", "d/a.test.js"].map (placeOf ["w"])).Nodup := by
  have hresolve : Leaves (resolve ["d/.h/b.test.js", "d/a.test.js", "d/"] (some "d") oneKind) besideHidden
      (.ok ["d/.h/b.test.js", "d/a.test.js"]) besideHidden :=
    Filing.Reads.leaves_answer (Migration.reads_resolve _ _ _) (by decide +kernel)
  have hwritten : WrittenAlike besideHidden (given ["d/.h/b.test.js", "d/a.test.js", "d/"] (some "d")) :=
    ⟨by decide +kernel, by decide +kernel, by decide +kernel⟩
  exact ⟨hresolve, (each_listed_once tidy_besideHidden hresolve).2 hwritten patterns_oneKind⟩

/-- A file that is given by itself is listed again under another name if its directory is written in
another way. -/
theorem listed_under_two_names :
    Leaves (resolve ["d/a.test.js"] (some "./d") oneKind) besideHidden
        (.ok ["d/a.test.js", "./d/a.test.js"]) besideHidden ∧
      placeOf ["w"] "d/a.test.js" = placeOf ["w"] "./d/a.test.js" :=
  ⟨Filing.Reads.leaves_answer (Migration.reads_resolve _ _ _) (by decide +kernel), by decide +kernel⟩

end Discovery

end TestMigration
