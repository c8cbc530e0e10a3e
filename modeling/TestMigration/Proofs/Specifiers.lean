import TestMigration.Convert.Specifier
import TestMigration.Proofs.Spelling

/-! Where relative specifiers lead. The path that a specifier is resolved to begins at the root; its
components are those of the directory of the importing file and then those of the specifier, and each
double dot has led back by one component. -/

namespace TestMigration

/-! ## Pieces of texts -/

section Pieces

variable {α β : Type} [BEq α] [BEq β]

theorem splitOn_map {f : α → β} {a : α} (hf : ∀ x, (f x == f a) = (x == a)) (as : List α) :
    (as.map f).splitOn (f a) = (as.splitOn a).map (List.map f) := by
  induction as with
  | nil => rfl
  | cons first rest ih =>
    rw [List.map_cons, List.splitOn_cons_eq_if_modifyHead, List.splitOn_cons_eq_if_modifyHead, hf, ih]
    cases first == a with
    | true => rfl
    | false =>
      cases hparts : rest.splitOn a with
      | nil => exact absurd hparts (List.splitOn_ne_nil a rest)
      | cons piece pieces => rfl

end Pieces

namespace Text

theorem splitOn_eq (separator : Glyph) (t : Text) : t.splitOn separator = List.splitOn separator t := by
  induction t with
  | nil => rfl
  | cons g rest ih =>
    rw [Text.splitOn, List.splitOn_cons_eq_if_modifyHead, ih]
    split
    · rfl
    · cases hparts : List.splitOn separator rest with
      | nil => exact absurd hparts (List.splitOn_ne_nil separator rest)
      | cons piece pieces => rfl

theorem ofString_inj {s t : String} : ofString s = ofString t ↔ s = t := by
  unfold ofString
  rw [List.map_inj_right fun _ _ h => Glyph.char.inj h, String.toList_inj]

end Text

namespace Specifier

variable {specifier front rest : Text} {part : Text} {g : Glyph}

/-- The components of a path text, without empty ones and single dots. -/
def components (path : Text) : List Text :=
  (path.splitOn slash).filter fun part => !part.isEmpty && part != Text.ofString "."

theorem components_split (front rest : Text) :
    components (front ++ slash :: rest) = components front ++ components rest := by
  unfold components
  rw [Text.splitOn_eq, Text.splitOn_eq, Text.splitOn_eq, List.splitOn_append_cons_self, List.filter_append]

theorem mem_components (h : part ∈ components specifier) :
    part ≠ [] ∧ part ≠ Text.ofString "." ∧ slash ∉ part := by
  obtain ⟨hmem, hkept⟩ := List.mem_filter.mp h
  rw [Text.splitOn_eq] at hmem
  obtain ⟨hempty, hdot⟩ := Bool.and_eq_true_iff.mp hkept
  exact ⟨by simpa using hempty, bne_iff_ne.mp hdot, not_mem_of_mem_splitOn hmem⟩

/-- A path is taken apart in the same way before and after it became a text of glyphs. -/
theorem components_ofString (path : String) :
    components (Text.ofString path) = (PathName.ofString path).parts.map Text.ofString := by
  have hpieces : List.splitOn slash (Text.ofString path) = (slashParts path).map Text.ofString := by
    unfold slashParts Text.ofString
    rw [List.map_map]
    refine (splitOn_map (fun c => ?_) path.toList).trans (List.map_congr_left fun cs _ => ?_)
    · rw [Bool.eq_iff_iff, beq_iff_eq, beq_iff_eq, Glyph.char.injEq]
    · exact congrArg _ String.toList_ofList.symm
  have hkept : ∀ part : String, (!(Text.ofString part).isEmpty && Text.ofString part != Text.ofString ".") =
      (part != "" && part != ".") := by
    intro part
    rw [Bool.eq_iff_iff, Bool.and_eq_true_iff, Bool.and_eq_true_iff, bne_iff_ne, bne_iff_ne, bne_iff_ne,
      ne_eq, ne_eq, Text.ofString_inj]
    refine and_congr_left fun _ => ?_
    rw [Bool.not_eq_true', List.isEmpty_eq_false_iff, Text.ofString, ne_eq, List.map_eq_nil_iff,
      String.toList_eq_nil_iff]
  unfold components
  rw [Text.splitOn_eq, hpieces, List.filter_map, PathName.parts_ofString]
  exact congrArg _ (List.filter_congr fun part _ => hkept part)

/-! ## Paths from the root -/

theorem normalise_rooted (hg : g ≠ slash) : normalise (slash :: g :: rest) =
    slash :: Text.join [slash]
      ((components (slash :: g :: rest)).foldl (stepOn (Text.ofString "..")) []) := by
  have hslashes : leadingSlashes (· == slash) (slash :: g :: rest) = 1 := by
    unfold leadingSlashes
    rw [List.takeWhile_cons_of_pos (by simp), List.takeWhile_cons_of_neg (by simpa using hg)]
    rfl
  rw [← cancelUps_walk]
  unfold normalise components
  rw [hslashes]
  rfl

theorem head_of_isRelative (h : isRelative specifier = true) : ∃ rest, specifier = .char '.' :: rest := by
  have hdot : ∀ piece : Text, piece.head? = some (.char '.') → specifier.startsWith piece = true →
      ∃ rest, specifier = .char '.' :: rest := by
    intro piece hhead hstarts
    obtain ⟨tail, rfl⟩ := List.isPrefixOf_iff_prefix.mp hstarts
    cases piece with
    | nil => cases hhead
    | cons c piece =>
      cases hhead
      exact ⟨_, rfl⟩
  unfold isRelative at h
  rw [Bool.or_eq_true_iff, Bool.or_eq_true_iff, Bool.or_eq_true_iff] at h
  rcases h with ((h | h) | h) | h
  · exact hdot _ rfl h
  · exact hdot _ rfl h
  · exact ⟨_, beq_iff_eq.mp h⟩
  · exact ⟨_, beq_iff_eq.mp h⟩

/-! ## Directories -/

/-- Two slashes, and not three, begin the path. -/
def BeginsDoubly (path : String) : Prop :=
  path.startsWith "//" = true ∧ path.startsWith "///" = false

instance (path : String) : Decidable (BeginsDoubly path) := inferInstanceAs (Decidable (_ ∧ _))

theorem leadingSlashes_eq_two {cs : List Char} (h : leadingSlashes (· == '/') cs = 2) :
    ['/', '/'] <+: cs ∧ ¬ ['/', '/', '/'] <+: cs := by
  unfold leadingSlashes at h
  split at h
  · cases h
  · rename_i hlength
    rcases cs with _ | ⟨a, _ | ⟨b, rest⟩⟩
    · cases hlength
    · exact absurd (hlength ▸ (List.takeWhile_sublist _).length_le) (by simp)
    · rw [List.takeWhile_cons] at hlength
      split at hlength
      · rename_i ha
        rw [List.takeWhile_cons] at hlength
        split at hlength
        · rename_i hb
          obtain rfl := beq_iff_eq.mp ha
          obtain rfl := beq_iff_eq.mp hb
          refine ⟨⟨rest, rfl⟩, fun ⟨tail, htail⟩ => ?_⟩
          obtain rfl : rest = '/' :: tail := by simpa using htail.symm
          simp at hlength
        · cases hlength
      · cases hlength
  · cases h

theorem slashes_of_not_doubly {file : String} (h : ¬ BeginsDoubly file) :
    (PathName.ofString file).slashes = 0 ∨ (PathName.ofString file).slashes = 1 := by
  have htwo : leadingSlashes (· == '/') file.toList ≠ 2 := by
    intro htwo
    obtain ⟨hsecond, hthird⟩ := leadingSlashes_eq_two htwo
    refine h ⟨String.startsWith_string_iff.mpr hsecond, ?_⟩
    rw [Bool.eq_false_iff, ne_eq, String.startsWith_string_iff]
    exact hthird
  change leadingSlashes (· == '/') file.toList = 0 ∨ leadingSlashes (· == '/') file.toList = 1
  unfold leadingSlashes at htwo ⊢
  split
  · exact .inl rfl
  · rename_i hlength
    rw [hlength] at htwo
    exact absurd rfl htwo
  · exact .inr rfl

section Directory

variable {cwd : Route} {file : String}

/-- Made absolute, the path of a file begins with one slash. -/
theorem absolute_eq (h : ¬ BeginsDoubly file) :
    (PathName.ofString file).absolute ⟨1, cwd⟩ = ⟨1, placeOf cwd file⟩ := by
  have hslashes : ((PathName.ofString file).absolute ⟨1, cwd⟩).slashes = 1 := by
    unfold PathName.absolute PathName.join PathName.isAbsolute
    dsimp only
    split
    · rename_i habsolute
      exact (slashes_of_not_doubly h).resolve_left (bne_iff_ne.mp habsolute)
    · rfl
  exact congrArg (PathName.mk · (placeOf cwd file)) hslashes

theorem mem_placeOf (hcwd : PathName.Proper ⟨1, cwd⟩) {name : String} (h : name ∈ placeOf cwd file) :
    name ≠ "" ∧ name ≠ "." ∧ Slashless name ∧ name ≠ ".." := by
  have hroot : (PathName.join ⟨1, cwd⟩ (PathName.ofString file)).isAbsolute = true := isAbsolute_join rfl
  have hparts : ∀ part ∈ (PathName.join ⟨1, cwd⟩ (PathName.ofString file)).parts,
      part ≠ "" ∧ part ≠ "." ∧ Slashless part :=
    fun part hpart => (mem_parts_join hpart).elim (hcwd part) (PathName.proper_ofString file part)
  unfold placeOf PathName.resolve PathName.absolute at h
  dsimp only at h
  rw [hroot, cancelUps_walk] at h
  obtain ⟨hmem, hup⟩ := (mem_foldl_stepOn h).resolve_left List.not_mem_nil
  obtain ⟨hempty, hdot, hslash⟩ := hparts name hmem
  exact ⟨hempty, hdot, hslash, hup⟩

/-- Where a specifier leads from the directory of a file: from component to component, starting where the
file's own path leads from the working directory. -/
def route (cwd : Route) (file : String) (specifier : Text) : List Text :=
  (components specifier).foldl (stepOn (Text.ofString ".."))
    ((placeOf cwd file).dropLast.map Text.ofString)

/-- The text of the directory begins with its only slash, or with a slash and a name. -/
theorem head_directory {p : PathName} (hp : p.Proper) (hslashes : p.slashes = 1) :
    (toString p).toList = ['/'] ∨ ∃ c rest, (toString p).toList = '/' :: c :: rest ∧ c ≠ '/' := by
  have htext : (toString p).toList = '/' :: ("/".intercalate p.parts).toList := by
    rw [PathName.toString_of_slashes (by omega), hslashes, String.toList_append]
    rfl
  rw [htext, String.toList_intercalate]
  cases hparts : p.parts with
  | nil => exact .inl rfl
  | cons first more =>
    obtain ⟨hempty, -, hslash⟩ := hp first (hparts ▸ List.mem_cons_self)
    cases hfirst : first.toList with
    | nil => exact absurd (String.toList_eq_nil_iff.mp hfirst) hempty
    | cons c cs =>
      have hmore : ∃ rest, "/".toList.intercalate (first.toList :: more.map String.toList) = c :: rest := by
        rw [hfirst]
        cases more with
        | nil => exact ⟨cs, List.intercalate_singleton⟩
        | cons second more => exact ⟨_, List.intercalate_cons_cons⟩
      obtain ⟨rest, hrest⟩ := hmore
      exact .inr ⟨c, rest, congrArg _ hrest, fun hc => hslash (hfirst ▸ hc ▸ List.mem_cons_self)⟩

/-- A directory and a specifier as one path; a slash comes between them, unless there is one already. -/
def joined (directory : String) (specifier : Text) : Text :=
  if directory.endsWith "/" then directory ++ specifier else directory ++ slash :: specifier

theorem components_joined (directory : String) (specifier : Text) : components (joined directory specifier) =
    (PathName.ofString directory).parts.map Text.ofString ++ components specifier := by
  rw [← components_ofString]
  unfold joined
  split
  · rename_i hends
    obtain ⟨front, hfront⟩ := endsWith_iff.mp hends
    have htext : Text.ofString directory = front.map Glyph.char ++ [slash] := by
      unfold Text.ofString
      rw [← hfront, List.map_append]
      rfl
    rw [htext, List.append_assoc, List.singleton_append, components_split, components_split]
    exact congrArg (· ++ _) (List.append_nil _).symm
  · exact components_split _ _

theorem head_joined {p : PathName} (hp : p.Proper) (hslashes : p.slashes = 1)
    (hspecifier : isRelative specifier = true) :
    ∃ g rest, joined (toString p) specifier = slash :: g :: rest ∧ g ≠ slash := by
  have htext : ∀ behind : Text, ∃ between, joined (toString p) behind =
      (toString p).toList.map Glyph.char ++ between ++ behind ∧
        ((toString p).endsWith "/" = true → between = []) := by
    intro behind
    unfold joined
    split
    · exact ⟨[], by rw [List.append_nil]; rfl, fun _ => rfl⟩
    · rename_i hends
      exact ⟨[slash], by rw [List.append_assoc]; rfl, fun h => absurd h hends⟩
  obtain ⟨between, hjoined, hbetween⟩ := htext specifier
  rw [hjoined]
  rcases head_directory hp hslashes with hroot | ⟨c, rest, hname, hc⟩
  · obtain ⟨behind, rfl⟩ := head_of_isRelative hspecifier
    rw [hbetween (endsWith_iff.mpr (hroot ▸ List.suffix_refl _)), hroot]
    exact ⟨.char '.', behind, rfl, by decide⟩
  · rw [hname]
    exact ⟨.char c, _, rfl, fun h => hc (Glyph.char.inj h)⟩

/-- The path that a relative specifier is resolved to begins with one slash. -/
theorem resolve_eq (hcwd : PathName.Proper ⟨1, cwd⟩) (hfile : ¬ BeginsDoubly file)
    (hspecifier : isRelative specifier = true) :
    resolve ⟨1, cwd⟩ file specifier = slash :: Text.join [slash] (route cwd file specifier) := by
  let directory : PathName := ⟨1, (placeOf cwd file).dropLast⟩
  have hnames : ∀ name ∈ directory.parts, name ≠ "" ∧ name ≠ "." ∧ Slashless name ∧ name ≠ ".." :=
    fun name hname => mem_placeOf hcwd (List.dropLast_subset _ hname)
  have hproper : directory.Proper := fun name hname =>
    ⟨(hnames name hname).1, (hnames name hname).2.1, (hnames name hname).2.2.1⟩
  have hups : Text.ofString ".." ∉ directory.parts.map Text.ofString := by
    intro hup
    obtain ⟨name, hname, hsame⟩ := List.mem_map.mp hup
    exact (hnames name hname).2.2.2 (Text.ofString_inj.mp hsame)
  have hpath : resolve ⟨1, cwd⟩ file specifier = normalise (joined (toString directory) specifier) := by
    obtain ⟨behind, rfl⟩ := head_of_isRelative hspecifier
    unfold resolve
    rw [absolute_eq hfile]
    rfl
  obtain ⟨g, rest, hhead, hg⟩ := head_joined hproper rfl hspecifier
  rw [hpath, hhead, normalise_rooted hg, ← hhead, components_joined,
    PathName.parts_ofString_toString hproper, List.foldl_append, foldl_stepOn_of_no_ups hups,
    List.nil_append]
  rfl

theorem mem_route (hcwd : PathName.Proper ⟨1, cwd⟩) (h : part ∈ route cwd file specifier) :
    part ≠ [] ∧ part ≠ Text.ofString "." ∧ part ≠ Text.ofString ".." ∧ slash ∉ part := by
  rcases mem_foldl_stepOn h with h | ⟨h, hup⟩
  · obtain ⟨name, hname, rfl⟩ := List.mem_map.mp h
    obtain ⟨hempty, hdot, hslash, hup⟩ := mem_placeOf hcwd (List.dropLast_subset _ hname)
    refine ⟨fun hnil => hempty ?_, fun h => hdot (Text.ofString_inj.mp h),
      fun h => hup (Text.ofString_inj.mp h), fun h => hslash ?_⟩
    · exact Text.ofString_inj.mp hnil
    · obtain ⟨c, hc, hsame⟩ := List.mem_map.mp h
      exact Glyph.char.inj hsame ▸ hc
  · obtain ⟨hempty, hdot, hslash⟩ := mem_components h
    exact ⟨hempty, hdot, hup, hslash⟩

end Directory

end Specifier

end TestMigration
