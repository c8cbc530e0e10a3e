import TestMigration.Proofs.Discovery
import TestMigration.Proofs.Tidy

/-! What the expansion of a written pattern finds below a directory. The pattern is taken apart into
the directory, any directories below it, and the names of the files; a hidden directory is never gone
into, and a hidden file is found only for a pattern that begins with a dot. -/

namespace TestMigration

/-! ## Patterns without signs -/

namespace NamePattern

theorem readFrom_plain {cs : List Char} (h : ∀ c ∈ cs, c ≠ '*' ∧ c ≠ '?' ∧ c ≠ '[') {fuel : Nat}
    (hfuel : cs.length ≤ fuel) : readFrom fuel cs = cs.map .literal := by
  induction cs generalizing fuel with
  | nil => cases fuel <;> rfl
  | cons c rest ih =>
    obtain ⟨hstar, hany, hbracket⟩ := h c List.mem_cons_self
    cases fuel with
    | zero => cases hfuel
    | succ fuel =>
      have hrest := ih (fun c hc => h c (List.mem_cons_of_mem _ hc))
        (Nat.le_of_succ_le_succ hfuel)
      unfold readFrom
      split
      · contradiction
      · contradiction
      · rename_i heq
        cases heq
        exact absurd rfl hstar
      · rename_i heq
        cases heq
        exact absurd rfl hany
      · rename_i heq
        cases heq
        exact absurd rfl hbracket
      · rename_i hfuel heq
        cases hfuel
        cases heq
        rw [hrest, List.map_cons]

theorem holds_literals (cs name : List Char) : holds (cs.map .literal) name = true ↔ name = cs := by
  induction cs generalizing name with
  | nil => simp [holds]
  | cons c rest ih =>
    cases name with
    | nil => simp [holds]
    | cons first later => simp [holds, NamePart.accepts, ih]

/-- A pattern without signs describes itself only. -/
theorem holdsOf_plain {pattern name : String} (h : isPattern pattern = false) :
    holdsOf pattern name = true ↔ name = pattern := by
  have hplain : ∀ c ∈ pattern.toList, c ≠ '*' ∧ c ≠ '?' ∧ c ≠ '[' := by
    intro c hc
    have hsign := List.any_eq_false.mp h c hc
    simpa [and_assoc] using hsign
  unfold holdsOf ofString
  rw [readFrom_plain hplain (Nat.le_of_eq String.length_toList), holds_literals, String.toList_inj]

theorem isPattern_append (a b : String) : isPattern (a ++ b) = (isPattern a || isPattern b) := by
  unfold isPattern
  rw [String.toList_append, List.any_append]

end NamePattern

/-! ## One directory -/

/-- A pattern of the names of files. -/
def FilePattern (pattern : String) : Prop :=
  pattern ≠ "" ∧ pattern ≠ "." ∧ pattern ≠ ".." ∧ Slashless pattern ∧ pattern ≠ anyDepth

instance : DecidablePred FilePattern := fun pattern => inferInstanceAs (Decidable
  (pattern ≠ "" ∧ pattern ≠ "." ∧ pattern ≠ ".." ∧ Slashless pattern ∧ pattern ≠ anyDepth))

/-- The pattern describes the name, and begins with a dot if the name does. -/
def Shows (pattern name : String) : Prop :=
  NamePattern.holdsOf pattern name = true ∧
    (Disk.isHidden pattern = true ∨ Disk.isHidden name = false)

namespace Disk

variable {d : Disk} {p q : Route} {dir name pattern : String} {recurse : Bool}

theorem placeOf?_of_find (hdir : d.find dir = .ok p) : d.placeOf? dir = some p := by
  unfold placeOf?
  rw [if_neg (by simpa using (find_ok_iff.mp hdir).1), hdir]
  rfl

theorem mem_namesMatching (hdir : d.find dir = .ok p) :
    name ∈ d.namesMatching dir pattern false ↔ (∃ item, (p ++ [name], item) ∈ d.items) ∧
      Shows pattern name := by
  unfold namesMatching Shows
  rw [placeOf?_of_find hdir]
  dsimp only
  rw [List.mem_filter, mem_namesIn]
  simp [and_comm]

/-- The files of a directory that a pattern shows. -/
theorem mem_namesFor (tidy : d.Tidy) (hdir : d.find dir = .ok p) (hpattern : FilePattern pattern) :
    name ∈ d.namesFor recurse dir pattern false ∧ d.isFile (joinPath dir name) = true ↔
      (∃ bytes, (p ++ [name], .file bytes) ∈ d.items) ∧ Shows pattern name ∧
        (joinPath dir name).utf8ByteSize ≤ 4095 := by
  obtain ⟨hempty, hdot, hup, hslash, hdepth⟩ := hpattern
  have hfound : ∀ {bytes}, (p ++ [name], .file bytes) ∈ d.items →
      (joinPath dir name).utf8ByteSize ≤ 4095 → d.isFile (joinPath dir name) = true :=
    fun hitem hshort =>
      isFile_of_find (find_joinPath_name tidy hdir hitem hshort) (tidy.get?_of_mem hitem)
  unfold namesFor
  by_cases hsign : NamePattern.isPattern pattern = true
  · rw [if_pos hsign, if_neg (by simp [hdepth]), mem_namesMatching hdir]
    constructor
    · rintro ⟨⟨⟨item, hitem⟩, hshows⟩, hfile⟩
      have hname := (tidy.named _ hitem).2 name (List.mem_append_right p List.mem_cons_self)
      obtain ⟨hfind, bytes, hplace⟩ := find_of_isFile_joinPath hdir
        ⟨hname.nonempty, hname.notDot, hname.notUp⟩ hname.slashless hfile
      exact ⟨⟨bytes, mem_of_file hplace⟩, hshows, (find_ok_iff.mp hfind).2.2.1⟩
    · rintro ⟨⟨bytes, hitem⟩, hshows, hshort⟩
      exact ⟨⟨⟨_, hitem⟩, hshows⟩, hfound hitem hshort⟩
  · rw [if_neg hsign, if_neg (by simpa using hempty)]
    rw [Bool.not_eq_true] at hsign
    constructor
    · rintro ⟨hmem, hfile⟩
      have hsame : name = pattern := by
        split at hmem
        · exact List.mem_singleton.mp hmem
        · cases hmem
      subst hsame
      obtain ⟨hfind, bytes, hplace⟩ :=
        find_of_isFile_joinPath hdir ⟨hempty, hdot, hup⟩ hslash hfile
      refine ⟨⟨bytes, mem_of_file hplace⟩, ⟨(NamePattern.holdsOf_plain hsign).mpr rfl, ?_⟩,
        (find_ok_iff.mp hfind).2.2.1⟩
      cases isHidden name with
      | true => exact .inl rfl
      | false => exact .inr rfl
    · rintro ⟨⟨bytes, hitem⟩, ⟨hholds, -⟩, hshort⟩
      cases (NamePattern.holdsOf_plain hsign).mp hholds
      have hthere : d.exists? (joinPath dir name) = true := by
        unfold exists? item?
        rw [find_joinPath_name tidy hdir hitem hshort]
        simp [Except.toOption, tidy.get?_of_mem hitem]
      rw [if_pos hthere]
      exact ⟨List.mem_singleton_self _, hfound hitem hshort⟩

theorem mem_namesBelow (tidy : d.Tidy) (hdir : d.find dir = .ok p)
    (hplace : d.get? p = some .directory) {path : String} :
    path ∈ d.namesBelow dir true ↔ ∃ front, d.get? (p ++ front) = some .directory ∧
      (∀ name ∈ front, isHidden name = false) ∧ path = "/".intercalate front := by
  unfold namesBelow
  rw [placeOf?_of_find hdir]
  dsimp only
  rw [if_neg (by simp [isDirectoryAt, hplace]), List.mem_cons, List.mem_filterMap]
  constructor
  · rintro (rfl | ⟨⟨q, item⟩, hq, hpath⟩)
    · exact ⟨[], by simpa using hplace, by simp, rfl⟩
    · cases item with
      | file bytes => simp at hpath
      | directory =>
        simp only [Bool.not_true, Bool.false_or, Bool.and_true, Option.ite_none_right_eq_some,
          Bool.and_eq_true, Bool.not_eq_true', Option.some.injEq] at hpath
        obtain ⟨⟨⟨hbegins, -⟩, hseen⟩, rfl⟩ := hpath
        obtain ⟨front, rfl⟩ := List.isPrefixOf_iff_prefix.mp hbegins
        rw [List.drop_left] at hseen ⊢
        exact ⟨front, tidy.get?_of_mem hq, by simpa using hseen, rfl⟩
  · rintro ⟨front, hfront, hseen, rfl⟩
    cases front with
    | nil => exact .inl rfl
    | cons first rest =>
      refine .inr ⟨(p ++ first :: rest, .directory), mem_of_get? hfront (by simp), ?_⟩
      have hall : (first :: rest).any isHidden = false := by
        rw [List.any_eq_false]
        intro name hname
        simp [hseen name hname]
      simp [hall]

/-! ## A written pattern -/

theorem isPattern_joinPath (hdir : dir ≠ "") (hplain : NamePattern.isPattern dir = false)
    (hname : name.startsWith "/" = false) :
    NamePattern.isPattern (joinPath dir name) = NamePattern.isPattern name := by
  obtain ⟨front, hjoin, hfront⟩ := joinPath_eq hdir
  have hfront : NamePattern.isPattern front = false := by
    rcases hfront with ⟨rfl, -⟩ | rfl
    · exact hplain
    · rw [NamePattern.isPattern_append] at hplain
      exact (Bool.or_eq_false_iff.mp hplain).1
  rw [hjoin name hname, NamePattern.isPattern_append, NamePattern.isPattern_append, hfront,
    show NamePattern.isPattern "/" = false from rfl, Bool.false_or, Bool.false_or]

theorem isPattern_joinPath_of_isPattern (hdir : dir ≠ "") (hsign : NamePattern.isPattern dir = true)
    (hname : name.startsWith "/" = false) : NamePattern.isPattern (joinPath dir name) = true := by
  obtain ⟨front, hjoin, hfront⟩ := joinPath_eq hdir
  rw [hjoin name hname, NamePattern.isPattern_append]
  rcases hfront with ⟨rfl, -⟩ | rfl
  · rw [NamePattern.isPattern_append, hsign]
    rfl
  · rw [hsign]
    rfl

/-- The directory that is searched, as the expansion spells it. -/
structure Spells (above dir : String) : Prop where
  nonempty : above ≠ ""
  same : ∃ n, dir = above ++ String.ofList (List.replicate n '/')

theorem Spells.isPattern {above : String} (h : Spells above dir)
    (hplain : NamePattern.isPattern dir = false) : NamePattern.isPattern above = false := by
  obtain ⟨n, rfl⟩ := h.same
  rw [NamePattern.isPattern_append] at hplain
  exact (Bool.or_eq_false_iff.mp hplain).1

theorem Spells.find {above : String} (h : Spells above dir) (hdir : d.find dir = .ok p) :
    d.find above = .ok p := by
  obtain ⟨n, rfl⟩ := h.same
  exact find_of_slashes h.nonempty hdir

/-- A pattern in a directory stands for files of that directory. -/
theorem expand_flat (hdir : dir ≠ "") (hplain : NamePattern.isPattern dir = false)
    (hpattern : FilePattern pattern) : ∃ above, Spells above dir ∧
      d.expand false (joinPath dir pattern) =
        (d.namesFor false above pattern false).map (joinPath above) := by
  obtain ⟨hempty, -, -, hslash, -⟩ := hpattern
  have hrelative := startsWith_of_slashless hslash
  obtain ⟨above, n, hsplit, habove, hsame, -⟩ := splitPath_joinPath hdir hslash
  unfold expand expandFrom
  rw [hsplit]
  dsimp only
  rw [isPattern_joinPath hdir hplain hrelative]
  cases hsign : NamePattern.isPattern pattern with
  | false =>
    refine ⟨dir, ⟨hdir, 0, by simp⟩, ?_⟩
    have hname : (pattern == "") = false := by simpa using hempty
    unfold namesFor
    simp only [hsign, hname, Bool.not_false, if_true, Bool.false_eq_true, if_false]
    split
    · rfl
    · rfl
  | true =>
    have hspells : Spells above dir := ⟨habove, n, hsame⟩
    refine ⟨above, hspells, ?_⟩
    rw [if_neg (by simp), if_neg (by simpa using habove),
      if_neg (by simp [hspells.isPattern hplain])]
    simp

theorem splitPath_joinPath_stars (hdir : dir ≠ "") (hname : Slashless name) :
    splitPath (joinPath (joinPath dir anyDepth) name) = (joinPath dir anyDepth, name) := by
  have hrelative : anyDepth.startsWith "/" = false := startsWith_of_slashless (by decide)
  obtain ⟨above, n, hsplit, -, hsame, hends⟩ :=
    splitPath_joinPath (joinPath_ne_empty hdir hrelative) hname
  have hstars : (joinPath dir anyDepth).endsWith "/" = false := by
    obtain ⟨front, hjoin, -⟩ := joinPath_eq hdir
    rw [Bool.eq_false_iff, ne_eq, endsWith_iff, hjoin _ hrelative]
    rintro ⟨before, hbefore⟩
    have hlast := congrArg List.getLast? hbefore
    simp [anyDepth] at hlast
  rw [hsplit, hsame, hends hstars]
  simp

/-- Two stars before the pattern stand for the directories below. -/
theorem expand_deep (hdir : dir ≠ "") (hplain : NamePattern.isPattern dir = false)
    (hpattern : FilePattern pattern) : ∃ above, Spells above dir ∧
      d.expand true (joinPath (joinPath dir anyDepth) pattern) =
        ((d.namesBelow above true).map (joinPath above)).flatMap fun dir =>
          (d.namesFor true dir pattern false).map (joinPath dir) := by
  obtain ⟨hempty, -, -, hslash, hdepth⟩ := hpattern
  have hstars : Slashless anyDepth := by decide
  have hrelative := startsWith_of_slashless hstars
  obtain ⟨above, n, hsplit, habove, hsame, -⟩ := splitPath_joinPath hdir hstars
  have hspells : Spells above dir := ⟨habove, n, hsame⟩
  have hdeep := joinPath_ne_empty hdir hrelative
  have hdeepSplit := splitPath_joinPath_stars hdir hslash
  have hlonger : joinPath dir anyDepth ≠ joinPath (joinPath dir anyDepth) pattern := by
    intro heq
    rw [← heq, hsplit] at hdeepSplit
    exact hdepth (Prod.mk.inj hdeepSplit).2.symm
  have hsign : NamePattern.isPattern (joinPath dir anyDepth) = true :=
    (isPattern_joinPath hdir hplain hrelative).trans rfl
  have hwhole := isPattern_joinPath_of_isPattern hdeep hsign (startsWith_of_slashless hslash)
  obtain ⟨fuel, hfuel⟩ := Nat.exists_eq_succ_of_ne_zero (mt String.length_eq_zero_iff.mp
    (joinPath_ne_empty hdeep (startsWith_of_slashless hslash)))
  have habove' : d.expandFrom true (fuel + 1) (joinPath dir anyDepth) true =
      (d.namesBelow above true).map (joinPath above) := by
    unfold expandFrom
    rw [hsplit]
    dsimp only
    rw [if_neg (by simp [hsign]), if_neg (by simpa using habove),
      if_neg (by simp [hspells.isPattern hplain]), List.flatMap_singleton]
    rfl
  refine ⟨above, hspells, ?_⟩
  unfold expand
  rw [hfuel]
  unfold expandFrom
  rw [hdeepSplit]
  dsimp only
  rw [if_neg (by simp [hwhole]), if_neg (by simpa using hdeep),
    if_pos (by simp [hlonger, hsign]), habove']

/-! ## What is found -/

theorem Spells.size_le {above : String} (h : Spells above dir) (hdir : dir ≠ "")
    (hname : name.startsWith "/" = false) :
    (joinPath above name).utf8ByteSize ≤ (joinPath dir name).utf8ByteSize := by
  obtain ⟨n, hsame⟩ := h.same
  cases n with
  | zero => simp [hsame]
  | succ n =>
    have hends : dir.endsWith "/" = true := by
      rw [endsWith_iff, hsame, String.toList_append, String.toList_ofList, List.replicate_succ']
      exact ⟨above.toList ++ List.replicate n '/', by simp⟩
    obtain ⟨front, hjoin, hfront⟩ := joinPath_eq hdir
    obtain ⟨front', hjoin', hfront'⟩ := joinPath_eq h.nonempty
    have hdirSize : dir.utf8ByteSize = front.utf8ByteSize + 1 := by
      rcases hfront with ⟨-, hno⟩ | rfl
      · rw [hends] at hno
        cases hno
      · rw [String.utf8ByteSize_append]
        rfl
    have haboveSize : front'.utf8ByteSize ≤ above.utf8ByteSize := by
      rcases hfront' with ⟨rfl, -⟩ | rfl
      · exact Nat.le_refl _
      · rw [String.utf8ByteSize_append]
        omega
    have hslashes : dir.utf8ByteSize ≥ above.utf8ByteSize + 1 := by
      rw [hsame, String.utf8ByteSize_append, List.replicate_succ', String.ofList_append,
        String.utf8ByteSize_append, show (String.ofList ['/']).utf8ByteSize = 1 from rfl]
      omega
    rw [hjoin name hname, hjoin' name hname]
    simp only [String.utf8ByteSize_append]
    omega

/-- The pattern stands for a file that these names lead to: it describes the last of them, and there
are no others unless directories are gone into. -/
structure Fits (recurse : Bool) (pattern : String) (front : List String) (name : String) : Prop where
  deep : recurse = true ∨ front = []
  holds : NamePattern.holdsOf pattern name = true

/-- No directory on the way is hidden, and the file is not, unless the pattern begins with a dot. -/
structure InSight (pattern : String) (front : List String) (name : String) : Prop where
  front : ∀ n ∈ front, isHidden n = false
  last : isHidden pattern = true ∨ isHidden name = false

/-- A path to a directory into which the expansion goes, and the names that lead there. -/
def Enters (d : Disk) (recurse : Bool) (p : Route) (above dir : String) (front : List String) :
    Prop :=
  d.get? (p ++ front) = some .directory ∧ (∀ n ∈ front, isHidden n = false) ∧
    if recurse then dir = joinPath above ("/".intercalate front) else front = [] ∧ dir = above

theorem mem_expansion (recurse : Bool) (tidy : d.Tidy) (hdir : d.find dir = .ok p)
    (hplace : d.get? p = some .directory) (hplain : NamePattern.isPattern dir = false)
    (hpattern : FilePattern pattern) : ∃ above, Spells above dir ∧ ∀ path,
      path ∈ Discovery.expansion d recurse dir pattern ↔ ∃ dir' front name,
        d.Enters recurse p above dir' front ∧ name ∈ d.namesFor recurse dir' pattern false ∧
          path = joinPath dir' name := by
  have hempty := (find_ok_iff.mp hdir).1
  unfold Discovery.expansion Enters
  cases recurse with
  | false =>
    obtain ⟨above, hspells, hexpand⟩ := expand_flat (d := d) hempty hplain hpattern
    refine ⟨above, hspells, fun path => ?_⟩
    simp only [Bool.false_eq_true, if_false]
    rw [hexpand, List.mem_map]
    constructor
    · rintro ⟨name, hname, rfl⟩
      exact ⟨above, [], name, ⟨by simpa using hplace, by simp, rfl, rfl⟩, hname, rfl⟩
    · rintro ⟨_, _, name, ⟨-, -, -, rfl⟩, hname, rfl⟩
      exact ⟨name, hname, rfl⟩
  | true =>
    obtain ⟨above, hspells, hexpand⟩ := expand_deep (d := d) hempty hplain hpattern
    refine ⟨above, hspells, fun path => ?_⟩
    simp only [if_true]
    rw [hexpand, List.mem_flatMap]
    constructor
    · rintro ⟨dir', hdir', hpath⟩
      obtain ⟨rel, hrel, rfl⟩ := List.mem_map.mp hdir'
      obtain ⟨name, hname, rfl⟩ := List.mem_map.mp hpath
      obtain ⟨front, hfront, hseen, rfl⟩ :=
        (mem_namesBelow tidy (hspells.find hdir) hplace).mp hrel
      exact ⟨_, front, name, ⟨hfront, hseen, rfl⟩, hname, rfl⟩
    · rintro ⟨_, front, name, ⟨hfront, hseen, rfl⟩, hname, rfl⟩
      exact ⟨_, List.mem_map.mpr ⟨_, (mem_namesBelow tidy (hspells.find hdir) hplace).mpr
        ⟨front, hfront, hseen, rfl⟩, rfl⟩, List.mem_map.mpr ⟨name, hname, rfl⟩⟩

variable {above path : String} {front : List String}

theorem Enters.legal (tidy : d.Tidy) (h : d.Enters recurse p above dir front) :
    ∀ n ∈ front, LegalName n := by
  intro n hn
  have hwhole : p ++ front ≠ [] := by
    intro hnil
    rw [(List.append_eq_nil_iff.mp hnil).2] at hn
    cases hn
  exact (tidy.named _ (mem_of_get? h.1 hwhole)).2 n (List.mem_append_right p hn)

theorem Enters.nonempty (tidy : d.Tidy) (habove : above ≠ "")
    (h : d.Enters recurse p above dir front) : dir ≠ "" := by
  have hlegal := h.legal tidy
  obtain ⟨-, -, hdir⟩ := h
  cases recurse with
  | false =>
    obtain ⟨-, rfl⟩ : front = [] ∧ dir = above := hdir
    exact habove
  | true =>
    obtain rfl : dir = joinPath above ("/".intercalate front) := hdir
    exact joinPath_ne_empty habove (relative_intercalate hlegal)

theorem Enters.find (tidy : d.Tidy) (habove : d.find above = .ok p)
    (hplace : d.get? p = some .directory) (h : d.Enters recurse p above dir front)
    (hshort : dir.utf8ByteSize ≤ 4095) : d.find dir = .ok (p ++ front) := by
  obtain ⟨hfront, -, hdir⟩ := h
  cases recurse with
  | false =>
    obtain ⟨rfl, rfl⟩ : front = [] ∧ dir = above := hdir
    rwa [List.append_nil]
  | true =>
    obtain rfl : dir = joinPath above ("/".intercalate front) := hdir
    exact find_joinPath_front tidy habove hplace hfront hshort

theorem slashless_of_mem_namesFor (tidy : d.Tidy) (hpattern : FilePattern pattern)
    (h : name ∈ d.namesFor recurse dir pattern false) : Slashless name := by
  obtain ⟨hempty, -, -, hslash, hdepth⟩ := hpattern
  unfold namesFor at h
  by_cases hsign : NamePattern.isPattern pattern = true
  · rw [if_pos hsign, if_neg (by simp [hdepth])] at h
    unfold namesMatching at h
    split at h
    · cases h
    · obtain ⟨item, hitem⟩ := mem_namesIn.mp (List.mem_of_mem_filter h)
      exact ((tidy.named _ hitem).2 name (List.mem_append_right _ List.mem_cons_self)).slashless
  · rw [if_neg hsign, if_neg (by simpa using hempty)] at h
    split at h
    · rw [List.mem_singleton.mp h]
      exact hslash
    · cases h

/-- Whatever the expansion finds is a file in sight that the pattern stands for. -/
theorem fits_of_mem_expansion (tidy : d.Tidy) (hdir : d.find dir = .ok p)
    (hplace : d.get? p = some .directory) (hplain : NamePattern.isPattern dir = false)
    (hpattern : FilePattern pattern) (hpath : path ∈ Discovery.expansion d recurse dir pattern)
    (hfile : d.isFile path = true) : ∃ front name bytes,
      (p ++ front ++ [name], .file bytes) ∈ d.items ∧ Fits recurse pattern front name ∧
        InSight pattern front name ∧ d.Names path (p ++ front ++ [name]) name := by
  obtain ⟨above, hspells, hmem⟩ := mem_expansion recurse tidy hdir hplace hplain hpattern
  obtain ⟨dir', front, name, henters, hname, rfl⟩ := (hmem path).mp hpath
  have hslash := slashless_of_mem_namesFor tidy hpattern hname
  have hnonempty := henters.nonempty tidy hspells.nonempty
  obtain ⟨q, bytes, hfind, -⟩ := find_of_isFile hfile
  have hdir' := henters.find tidy (hspells.find hdir) hplace
    (Nat.le_trans (size_le_joinPath hnonempty (startsWith_of_slashless hslash))
      (find_ok_iff.mp hfind).2.2.1)
  obtain ⟨⟨bytes, hitem⟩, ⟨hholds, hlast⟩, hshort⟩ :=
    (mem_namesFor tidy hdir' hpattern).mp ⟨hname, hfile⟩
  refine ⟨front, name, bytes, hitem, ⟨?_, hholds⟩, ⟨henters.2.1, hlast⟩,
    ⟨find_joinPath_name tidy hdir' hitem hshort, dialectFor_joinPath hnonempty hslash⟩⟩
  cases recurse with
  | false => exact .inr henters.2.2.1
  | true => exact .inl rfl

/-- A file in sight that the pattern stands for is found. -/
theorem exists_mem_expansion (tidy : d.Tidy) (hdir : d.find dir = .ok p)
    (hplace : d.get? p = some .directory) (hplain : NamePattern.isPattern dir = false)
    (hpattern : FilePattern pattern) {bytes : ByteArray}
    (hitem : (p ++ front ++ [name], .file bytes) ∈ d.items) (hfits : Fits recurse pattern front name)
    (hsight : InSight pattern front name)
    (hshort : (joinPath dir ("/".intercalate (front ++ [name]))).utf8ByteSize ≤ 4095) :
    ∃ path ∈ Discovery.expansion d recurse dir pattern, d.isFile path = true ∧
      d.Names path (p ++ front ++ [name]) name := by
  obtain ⟨above, hspells, hmem⟩ := mem_expansion recurse tidy hdir hplace hplain hpattern
  have hlegal : ∀ n ∈ front ++ [name], LegalName n := by
    intro n hn
    refine (tidy.named _ hitem).2 n ?_
    rw [List.append_assoc]
    exact List.mem_append_right p hn
  have hname := hlegal name (List.mem_append_right _ List.mem_cons_self)
  have hfront : d.get? (p ++ front) = some .directory :=
    tidy.above hitem (List.prefix_append _ _) (by simp)
  obtain ⟨dir', henters, hsize⟩ : ∃ dir', d.Enters recurse p above dir' front ∧
      (joinPath dir' name).utf8ByteSize ≤ 4095 := by
    have hwhole := Nat.le_trans (hspells.size_le (find_ok_iff.mp hdir).1
      (relative_intercalate hlegal)) hshort
    cases recurse with
    | false =>
      obtain rfl : front = [] := hfits.deep.resolve_left (by simp)
      refine ⟨above, ⟨hfront, hsight.front, rfl, rfl⟩, ?_⟩
      rwa [List.nil_append, String.intercalate_singleton] at hwhole
    | true =>
      exact ⟨_, ⟨hfront, hsight.front, rfl⟩, Nat.le_trans (size_joinPath_front hspells.nonempty
        (fun n hn => hlegal n (List.mem_append_left _ hn)) hname) hwhole⟩
  have hnonempty := henters.nonempty tidy hspells.nonempty
  have hdir' := henters.find tidy (hspells.find hdir) hplace
    (Nat.le_trans (size_le_joinPath hnonempty (startsWith_of_slashless hname.slashless)) hsize)
  have hboth : name ∈ d.namesFor recurse dir' pattern false ∧ d.isFile (joinPath dir' name) = true :=
    (mem_namesFor tidy hdir' hpattern).mpr ⟨⟨bytes, hitem⟩, ⟨hfits.holds, hsight.last⟩, hsize⟩
  obtain ⟨hlisted, hfile⟩ := hboth
  exact ⟨_, (hmem _).mpr ⟨dir', front, name, henters, hlisted, rfl⟩, hfile,
    find_joinPath_name tidy hdir' hitem hsize, dialectFor_joinPath hnonempty hname.slashless⟩

end Disk

end TestMigration
