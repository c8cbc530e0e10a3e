import TestMigration.Proofs.Alike
import TestMigration.Proofs.Expansion

/-! Two ways to search a directory: below a path, name by name, and by the expansion of a written
pattern. They find the same files as far as the expansion sees them, and only there. -/

namespace TestMigration

open Disk

/-! ## What the patterns stand for -/

theorem FilePattern.ofString {pattern : String} (h : FilePattern pattern) :
    PathName.ofString pattern = ⟨0, [pattern]⟩ := by
  obtain ⟨hempty, hdot, -, hslash, -⟩ := h
  have hslashes : (PathName.ofString pattern).slashes = 0 := by
    have habsolute := isAbsolute_ofString pattern
    rw [startsWith_of_slashless hslash] at habsolute
    simpa [PathName.isAbsolute] using habsolute
  have hparts : (PathName.ofString pattern).parts = [pattern] := by
    rw [PathName.parts_ofString, slashParts_of_slashless hslash]
    simp [hempty, hdot]
  rw [← hslashes, ← hparts]

namespace Discovery

variable {d : Disk} {s : Settings} {p : Route} {dir pattern : String}

theorem taken_of_filePattern (h : FilePattern pattern) : Taken s pattern := by
  unfold Taken
  rw [h.ofString]
  exact ⟨rfl, .inr (by simp)⟩

theorem describes_flat (h : FilePattern pattern) {names : List String} :
    Disk.describes [pattern] names = true ↔
      ∃ name, names = [name] ∧ NamePattern.holdsOf pattern name = true := by
  rw [Disk.describes.eq_def]
  dsimp only
  rw [if_neg (by simpa using h.2.2.2.2)]
  cases names with
  | nil => simp
  | cons name rest => simp [Disk.describes, and_comm]

/-- With the sign for any depth in front, whatever comes before the name is left open. -/
theorem describes_deep (h : FilePattern pattern) {names : List String} :
    Disk.describes [anyDepth, pattern] names = true ↔
      ∃ front name, names = front ++ [name] ∧ NamePattern.holdsOf pattern name = true := by
  induction names with
  | nil => simp [Disk.describes]
  | cons first rest ih =>
    rw [Disk.describes, if_pos (by rfl), Bool.or_eq_true, describes_flat h, ih]
    constructor
    · rintro (⟨name, hname, hholds⟩ | ⟨front, name, rfl, hholds⟩)
      · exact ⟨[], name, hname, hholds⟩
      · exact ⟨first :: front, name, rfl, hholds⟩
    · rintro ⟨front, name, hnames, hholds⟩
      cases front with
      | nil => exact .inl ⟨name, hnames, hholds⟩
      | cons _ front => exact .inr ⟨front, name, (List.cons.inj hnames).2, hholds⟩

/-- A pattern of names describes what ends with such a name. -/
theorem describes_iff (h : FilePattern pattern) {names : List String} :
    Disk.describes (partsFor s pattern) names = true ↔
      ∃ front name, names = front ++ [name] ∧ Fits (s.flag .recurse) pattern front name := by
  unfold partsFor
  rw [h.ofString]
  cases hrecurse : s.flag .recurse with
  | true =>
    rw [if_pos rfl, describes_deep h]
    constructor
    · rintro ⟨front, name, rfl, hholds⟩
      exact ⟨front, name, rfl, .inl rfl, hholds⟩
    · rintro ⟨front, name, rfl, -, hholds⟩
      exact ⟨front, name, rfl, hholds⟩
  | false =>
    rw [if_neg (by simp), describes_flat h]
    constructor
    · rintro ⟨name, rfl, hholds⟩
      exact ⟨[], name, rfl, .inr rfl, hholds⟩
    · rintro ⟨front, name, rfl, hdeep, hholds⟩
      obtain rfl := hdeep.resolve_left (by simp)
      exact ⟨name, rfl, hholds⟩

/-! ## Both searches -/

/-- Below the directory, written in this way, no path is too long; and the directory is no pattern. -/
structure Opens (d : Disk) (dir : String) (p : Route) : Prop where
  found : d.find dir = .ok p
  place : d.get? p = some .directory
  plain : NamePattern.isPattern dir = false
  short : ∀ names ∈ d.filesBelow p, (joinPath dir ("/".intercalate names)).utf8ByteSize ≤ 4095

/-- A pattern of the settings stands for the file, which the expansion of the pattern sees. -/
def InView (s : Settings) (p q : Route) : Prop :=
  ∃ pattern ∈ s.patterns, ∃ front name, q = p ++ front ++ [name] ∧
    Fits (s.flag .recurse) pattern front name ∧ InSight pattern front name

theorem Opens.isDirectory (h : Opens d dir p) : d.isDirectory dir = true := by
  unfold Disk.isDirectory item?
  rw [h.found]
  simp [Except.toOption, h.place]

variable {front : List String} {name : String} {bytes : ByteArray}

theorem Opens.short_path (h : Opens d dir p) (hitem : (p ++ front ++ [name], .file bytes) ∈ d.items) :
    (joinPath dir ("/".intercalate (front ++ [name]))).utf8ByteSize ≤ 4095 := by
  refine h.short _ (mem_filesBelow.mpr ⟨bytes, ?_⟩)
  rwa [← List.append_assoc]

/-- The path under which the search below a directory finds a file. -/
theorem Opens.names (tidy : d.Tidy) (h : Opens d dir p)
    (hitem : (p ++ front ++ [name], .file bytes) ∈ d.items) :
    d.Names (toString { PathName.ofString dir with
      parts := (PathName.ofString dir).parts ++ (front ++ [name]) }) (p ++ front ++ [name]) name := by
  have hempty := (find_ok_iff.mp h.found).1
  have hwhole : p ++ (front ++ [name]) = p ++ front ++ [name] := (List.append_assoc ..).symm
  have hlegal : ∀ n ∈ front ++ [name], LegalName n := by
    intro n hn
    refine (tidy.named _ hitem).2 n ?_
    rw [← hwhole]
    exact List.mem_append_right p hn
  have hproper := PathName.proper_ofString (joinPath dir ("/".intercalate (front ++ [name])))
  have hread := PathName.ofString_joinPath hempty (by simp) hlegal
  rw [← hread]
  constructor
  · refine find_toString_ofString (find_joinPath h.found (relative_intercalate hlegal)
      (clean_intercalate hlegal) (h.short_path hitem) ?_)
    rw [slashParts_intercalate (fun n hn => (hlegal n hn).slashless) (by simp), ← hwhole]
    rw [← hwhole] at hitem
    exact tidy.follow hitem
  · refine dialectFor_toString hproper (?_ : _ = (PathName.ofString dir).parts ++ front ++ [name])
    rw [hread, List.append_assoc]

theorem mem_listed_iff (h : Opens d dir p) (hpattern : FilePattern pattern)
    {file : PathName} : file ∈ listed d (PathName.ofString dir) s pattern ↔
      ∃ front name bytes, (p ++ front ++ [name], .file bytes) ∈ d.items ∧
        Fits (s.flag .recurse) pattern front name ∧ file = { PathName.ofString dir with
          parts := (PathName.ofString dir).parts ++ (front ++ [name]) } := by
  have hdir := find_toString_ofString h.found
  rw [mem_listed (taken_of_filePattern hpattern)]
  constructor
  · rintro ⟨place, names, hplace, hbelow, hdescribes, rfl⟩
    cases hdir.symm.trans hplace
    obtain ⟨front, name, rfl, hfits⟩ := (describes_iff hpattern).mp hdescribes
    obtain ⟨bytes, hitem⟩ := mem_filesBelow.mp hbelow
    exact ⟨front, name, bytes, by rwa [List.append_assoc], hfits, rfl⟩
  · rintro ⟨front, name, bytes, hitem, hfits, rfl⟩
    refine ⟨p, front ++ [name], hdir, mem_filesBelow.mpr ⟨bytes, ?_⟩,
      (describes_iff hpattern).mpr ⟨front, name, rfl, hfits⟩, rfl⟩
    rwa [← List.append_assoc]

/-- What the expansion of a pattern finds, the other search lists under another name. -/
theorem Opens.listed_of_expansion (tidy : d.Tidy) (h : Opens d dir p)
    (hpatterns : ∀ pattern ∈ s.patterns, FilePattern pattern) (hpattern : pattern ∈ s.patterns)
    {path : String} (hpath : path ∈ expansion d (s.flag .recurse) dir pattern)
    (hfile : d.isFile path = true) : ∃ file ∈ listed d (PathName.ofString dir) s pattern,
      ∃ q name, d.Names path q name ∧ d.Names (toString file) q name ∧ InView s p q := by
  obtain ⟨front, name, bytes, hitem, hfits, hsight, hnames⟩ := fits_of_mem_expansion tidy
    h.found h.place h.plain (hpatterns pattern hpattern) hpath hfile
  exact ⟨_, (mem_listed_iff h (hpatterns pattern hpattern)).mpr
    ⟨front, name, bytes, hitem, hfits, rfl⟩, _, name, hnames, h.names tidy hitem,
    pattern, hpattern, front, name, rfl, hfits, hsight⟩

/-- What the search below the directory lists, the expansion of some pattern finds if it is in view.
The pattern that shows the file may be another than the one that lists it. -/
theorem Opens.expansion_of_listed (tidy : d.Tidy) (h : Opens d dir p)
    (hpatterns : ∀ pattern ∈ s.patterns, FilePattern pattern) (hpattern : pattern ∈ s.patterns)
    {file : PathName} (hfile : file ∈ listed d (PathName.ofString dir) s pattern) :
    ∃ q name, d.Names (toString file) q name ∧ (InView s p q → ∃ pattern ∈ s.patterns,
      ∃ path ∈ expansion d (s.flag .recurse) dir pattern, d.isFile path = true ∧
        d.Names path q name) := by
  obtain ⟨front, name, bytes, hitem, -, rfl⟩ :=
    (mem_listed_iff h (hpatterns pattern hpattern)).mp hfile
  refine ⟨_, name, h.names tidy hitem, ?_⟩
  rintro ⟨shown, hshown, front', name', hsame, hfits, hsight⟩
  obtain ⟨hfront, hname⟩ := List.append_inj' hsame rfl
  cases List.append_cancel_left hfront
  cases hname
  exact ⟨shown, hshown, exists_mem_expansion tidy h.found h.place h.plain
    (hpatterns shown hshown) hitem hfits hsight (h.short_path hitem)⟩

/-- The search by patterns comes to a list if the search below the directory does, and in its list are
the files of the other that are in view. So both find the same files just if all of them are. -/
theorem searches_agree_in_view (tidy : d.Tidy) (hopens : Opens d dir p)
    (hpatterns : ∀ pattern ∈ s.patterns, FilePattern pattern) {found : List String} {d' : Disk}
    (hbelow : Leaves (below (PathName.ofString dir) s) d (.ok found) d') :
    ∃ resolved, Leaves (resolve [dir] none s) d (.ok resolved) d ∧
      (∀ q, q ∈ resolved.map (placeOf d.cwd) ↔ q ∈ found.map (placeOf d.cwd) ∧ InView s p q) ∧
      ((∀ q, q ∈ resolved.map (placeOf d.cwd) ↔ q ∈ found.map (placeOf d.cwd)) ↔
        ∀ q ∈ found.map (placeOf d.cwd), InView s p q) := by
  have hcwd : ".." ∉ d.cwd := fun hup => (tidy.cwd _ hup).notUp rfl
  obtain ⟨hjudged, hfound⟩ := below_ok
    (fun pattern hpattern => taken_of_filePattern (hpatterns pattern hpattern)) hbelow
  obtain ⟨resolved, hresolved, hmem⟩ := resolve_answers (d := d) (s := s) hopens.isDirectory
    fun pattern hpattern path hpath hfile => by
      obtain ⟨file, hfile, q, name, hpath, hfile', -⟩ :=
        hopens.listed_of_expansion tidy hpatterns hpattern hpath hfile
      exact (alike_of_names hfile' hpath).answers (hjudged pattern hpattern file hfile)
  have hagree : ∀ q, q ∈ resolved.map (placeOf d.cwd) ↔
      q ∈ found.map (placeOf d.cwd) ∧ InView s p q := by
    intro q
    constructor
    · intro hq
      obtain ⟨path, hpath, rfl⟩ := List.mem_map.mp hq
      obtain ⟨⟨pattern, hpattern, hpath, hfile⟩, hkept⟩ := (hmem path).mp hpath
      obtain ⟨file, hfile, q, name, hpath, hfile', hview⟩ :=
        hopens.listed_of_expansion tidy hpatterns hpattern hpath hfile
      rw [← find_place hcwd hpath.found]
      refine ⟨List.mem_map.mpr ⟨toString file, (hfound _).mpr ⟨⟨pattern, hpattern, file, hfile, rfl⟩,
        (alike_of_names hpath hfile').leaves_ok hkept⟩, ?_⟩, hview⟩
      exact (find_place hcwd hfile'.found).symm
    · rintro ⟨hq, hview⟩
      obtain ⟨written, hwritten, rfl⟩ := List.mem_map.mp hq
      obtain ⟨⟨pattern, hpattern, file, hfile, rfl⟩, hkept⟩ := (hfound written).mp hwritten
      obtain ⟨q, name, hnames, hshown⟩ := hopens.expansion_of_listed tidy hpatterns hpattern hfile
      rw [← find_place hcwd hnames.found] at hview ⊢
      obtain ⟨shown, hpattern, path, hpath, hfile, hnames'⟩ := hshown hview
      refine List.mem_map.mpr ⟨path, (hmem path).mpr ⟨⟨shown, hpattern, hpath, hfile⟩,
        (alike_of_names hnames hnames').leaves_ok hkept⟩, ?_⟩
      exact (find_place hcwd hnames'.found).symm
  refine ⟨resolved, hresolved, hagree, ?_⟩
  constructor
  · intro hsame q hq
    exact ((hagree q).mp ((hsame q).mpr hq)).2
  · intro hview q
    rw [hagree]
    exact ⟨And.left, fun hq => ⟨hq, hview q hq⟩⟩

/-- Settings with a single pattern. -/
def oneKind : Settings := Settings.standard.put .filePatterns (.ofStrings ["*.test.js"])

theorem patterns_oneKind : ∀ pattern ∈ oneKind.patterns, FilePattern pattern := by
  decide +kernel

theorem taken_oneKind : ∀ pattern ∈ oneKind.patterns, Taken oneKind pattern :=
  fun pattern hpattern => taken_of_filePattern (patterns_oneKind pattern hpattern)

theorem answers_of_answer {path : String} (kept : Bool)
    (h : Filing.answer? (keeps s path) d = some kept) : (keeps s path).Answers d :=
  ⟨kept, Filing.Reads.leaves_answer (Migration.reads_keeps s path) h⟩

/-- A file that the search below a directory lists and keeps is among those that it finds. -/
theorem mem_found_oneKind {directory : PathName} {place : Route} (front : List String)
    (name : String) (hplace : d.find (toString directory) = .ok place)
    (hnames : front ++ [name] ∈ d.filesBelow place)
    (hfits : Fits (oneKind.flag .recurse) "*.test.js" front name)
    (hkept : Filing.answer? (keeps oneKind
      (toString { directory with parts := directory.parts ++ (front ++ [name]) })) d = some true)
    {found : List String} (h : Leaves (below directory oneKind) d (.ok found) d) :
    toString { directory with parts := directory.parts ++ (front ++ [name]) } ∈ found := by
  have hpattern : "*.test.js" ∈ oneKind.patterns := List.mem_singleton_self _
  refine ((below_ok taken_oneKind h).2 _).mpr ⟨⟨_, hpattern, _, ?_, rfl⟩,
    Filing.Reads.leaves_answer (Migration.reads_keeps _ _) hkept⟩
  exact (mem_listed (taken_oneKind _ hpattern)).mpr ⟨place, _, hplace, hnames,
    (describes_iff (patterns_oneKind _ hpattern)).mpr ⟨front, name, rfl, hfits⟩, rfl⟩

/-- A directory with two tests, one of them in a hidden directory. -/
def besideHidden : Disk where
  items := [(["w"], .directory), (["w", "d"], .directory), (["w", "d", ".h"], .directory),
    (["w", "d", "a.test.js"], .file "mount(1);\n".toUTF8),
    (["w", "d", ".h", "b.test.js"], .file "mount(1);\n".toUTF8)]
  cwd := ["w"]

theorem tidy_besideHidden : besideHidden.Tidy where
  named := by decide +kernel
  inside := by
    intro e he
    simp only [besideHidden, List.mem_cons, List.not_mem_nil, or_false] at he
    rcases he with rfl | rfl | rfl | rfl | rfl <;> rfl
  once := by decide +kernel
  cwd := by decide +kernel

/-- The hidden test is found below the directory, but not by the pattern. -/
theorem searches_agree_in_view_hidden : ∃ found resolved,
    Leaves (below (.ofString "d") oneKind) besideHidden (.ok found) besideHidden ∧
      Leaves (resolve ["d"] none oneKind) besideHidden (.ok resolved) besideHidden ∧
      ["w", "d", "a.test.js"] ∈ resolved.map (placeOf ["w"]) ∧
      ["w", "d", ".h", "b.test.js"] ∈ found.map (placeOf ["w"]) ∧
      ["w", "d", ".h", "b.test.js"] ∉ resolved.map (placeOf ["w"]) := by
  have hplace : (besideHidden.find "d").toOption.map id = some ["w", "d"] := by decide +kernel
  obtain ⟨place, hplace, rfl⟩ := exists_of_toOption_map hplace
  have hopens : Opens besideHidden "d" ["w", "d"] :=
    ⟨hplace, rfl, by decide +kernel, by decide +kernel⟩
  have hfiles : besideHidden.filesBelow ["w", "d"] = [["a.test.js"], [".h", "b.test.js"]] := by
    decide +kernel
  have hdirectory := find_toString_ofString hplace
  have hbelow : (below (.ofString "d") oneKind).Answers besideHidden := by
    refine below_answers_of_files taken_oneKind hdirectory ?_
    rw [hfiles]
    intro names hnames
    rcases List.mem_pair.mp hnames with rfl | rfl
    · exact answers_of_answer true (by decide +kernel)
    · exact answers_of_answer true (by decide +kernel)
  obtain ⟨found, hfound⟩ := hbelow
  obtain ⟨resolved, hresolved, hagree, -⟩ :=
    searches_agree_in_view tidy_besideHidden hopens patterns_oneKind hfound
  have hshown : ["w", "d", "a.test.js"] ∈ found.map (placeOf ["w"]) :=
    List.mem_map.mpr ⟨_, mem_found_oneKind [] "a.test.js" hdirectory (by simp [hfiles])
      ⟨.inl rfl, by decide +kernel⟩ (by decide +kernel) hfound, by decide +kernel⟩
  have hhidden : ["w", "d", ".h", "b.test.js"] ∈ found.map (placeOf ["w"]) :=
    List.mem_map.mpr ⟨_, mem_found_oneKind [".h"] "b.test.js" hdirectory (by simp [hfiles])
      ⟨.inl rfl, by decide +kernel⟩ (by decide +kernel) hfound, by decide +kernel⟩
  refine ⟨found, resolved, hfound, hresolved, (hagree _).mpr ⟨hshown, ?_⟩, hhidden, ?_⟩
  · exact ⟨"*.test.js", List.mem_singleton_self _, [], "a.test.js", rfl,
      ⟨.inl rfl, by decide +kernel⟩, ⟨by simp, .inr (by decide +kernel)⟩⟩
  · intro hno
    obtain ⟨-, pattern, -, front, name, hsame, -, hsight⟩ := (hagree _).mp hno
    have hnames : [".h"] ++ ["b.test.js"] = front ++ [name] := by simpa using hsame
    obtain ⟨rfl, -⟩ := List.append_inj' hnames rfl
    exact absurd (hsight.front ".h" List.mem_cons_self) (by decide +kernel)

/-- A directory with a bracket in its name. -/
def bracketed : Disk where
  items := [(["w"], .directory), (["w", "d[1]"], .directory),
    (["w", "d[1]", "a.test.js"], .file "mount(1);\n".toUTF8)]
  cwd := ["w"]

/-- The name of the directory is taken for a pattern, so that nothing is found in it. -/
theorem bracket_directory_missed : ∃ found,
    Leaves (below (.ofString "d[1]") oneKind) bracketed (.ok found) bracketed ∧
      ["w", "d[1]", "a.test.js"] ∈ found.map (placeOf ["w"]) ∧
      Leaves (resolve ["d[1]"] none oneKind) bracketed (.ok []) bracketed := by
  have hplace : (bracketed.find (toString (PathName.ofString "d[1]"))).toOption.map id =
      some ["w", "d[1]"] := by
    decide +kernel
  obtain ⟨place, hplace, rfl⟩ := exists_of_toOption_map hplace
  have hfiles : bracketed.filesBelow ["w", "d[1]"] = [["a.test.js"]] := by decide +kernel
  have hbelow : (below (.ofString "d[1]") oneKind).Answers bracketed := by
    refine below_answers_of_files taken_oneKind hplace ?_
    rw [hfiles]
    intro names hnames
    rw [List.mem_singleton.mp hnames]
    exact answers_of_answer true (by decide +kernel)
  obtain ⟨found, hfound⟩ := hbelow
  refine ⟨found, hfound, List.mem_map.mpr ⟨_, mem_found_oneKind [] "a.test.js" hplace
    (by simp [hfiles]) ⟨.inl rfl, by decide +kernel⟩ (by decide +kernel) hfound, by decide +kernel⟩, ?_⟩
  exact Filing.Reads.leaves_answer (Migration.reads_resolve _ _ _) (by decide +kernel)

end Discovery

end TestMigration
