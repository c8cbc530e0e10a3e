import Mathlib.Data.List.Infix
import Mathlib.Data.List.TakeWhile
import TestMigration.Proofs.Queries
import TestMigration.Proofs.Worded
import TestMigration.Settings.Check

/-! Test ids in selectors. The search for `name = "value"` takes the first place in the selector where
the name stands before a quoted value. It asks neither what stands before the name nor which of the
two quotes ends the value: a name is found at the end of a longer one, and a value ends at the first
quote of either kind. -/

namespace TestMigration

namespace Text

theorem mem_suffixes {t u : Text} : u ∈ t.suffixes ↔ u <:+ t := by
  induction t with
  | nil => rw [suffixes, List.mem_singleton, List.suffix_nil]
  | cons g rest ih => rw [suffixes, List.mem_cons, ih, List.suffix_cons_iff]

theorem contains_iff {t piece : Text} : t.contains piece = true ↔ piece <:+: t := by
  rw [contains, List.any_eq_true, List.infix_iff_prefix_suffix]
  simp only [mem_suffixes, List.isPrefixOf_iff_prefix]
  exact ⟨fun ⟨u, hu, hpiece⟩ => ⟨u, hpiece, hu⟩, fun ⟨u, hpiece, hu⟩ => ⟨u, hu, hpiece⟩⟩

end Text

/-- A prefix without `g` of a text that goes on with `g` ends before it. -/
theorem prefix_of_prefix_append_cons {α : Type} {xs front rest : List α} {g : α}
    (h : xs <+: front ++ g :: rest) (hg : g ∉ xs) : xs <+: front := by
  rcases Nat.lt_or_ge front.length xs.length with hlong | hshort
  · have hfront : front ++ [g] <+: xs :=
      List.prefix_of_prefix_length_le ⟨rest, by rw [List.append_assoc]; rfl⟩ h
        (by rw [List.length_append]; exact hlong)
    exact absurd (hfront.subset (List.mem_append_right _ (List.mem_singleton_self g))) hg
  · exact List.prefix_of_prefix_length_le h (List.prefix_append _ _) hshort

namespace Selector

variable {attr before behind left right value selector : Text} {quote : Glyph} {call : Handle}

/-! ## Names of attributes -/

def isNamePart : Glyph → Bool :=
  Glyph.satisfies fun c => c.isAlphanum || "_:.-".toList.contains c || c == '\n'

/-- What the check of the setting lets pass as the name of an attribute. -/
structure Named (attr : Text) : Prop where
  nonempty : attr ≠ []
  plain : ∀ g ∈ attr, isNamePart g = true

theorem named_of_isAttributeName {name : String} (h : Setting.isAttributeName name = true) :
    Named name := by
  have hchars : name.toList ≠ [] ∧ ∀ c ∈ name.toList, isNamePart (.char c) = true := by
    unfold Setting.isAttributeName at h
    split at h
    · cases h
    rename_i c rest hname
    obtain ⟨hc, hrest⟩ := Bool.and_eq_true_iff.mp h
    replace hc : (c.isAlpha || c == '_') = true := hc
    have hplain : ∀ {cs : List Char}, cs.all (fun c => c.isAlphanum || "_:.-".toList.contains c) = true →
        ∀ c ∈ cs, isNamePart (.char c) = true := by
      intro cs hcs c hmem
      exact Bool.or_eq_true_iff.mpr (.inl (List.all_eq_true.mp hcs c hmem))
    rw [hname]
    refine ⟨List.cons_ne_nil _ _, List.forall_mem_cons.mpr ⟨?_, ?_⟩⟩
    · show (c.isAlphanum || "_:.-".toList.contains c || c == '\n') = true
      rcases Bool.or_eq_true_iff.mp hc with halpha | hunderscore
      · rw [Char.isAlphanum, halpha]
        rfl
      · rw [eq_of_beq hunderscore]
        decide
    · rcases Bool.or_eq_true_iff.mp hrest with hall | hbreak
      · exact hplain hall
      · obtain ⟨hlast, hall⟩ := Bool.and_eq_true_iff.mp hbreak
        intro c hmem
        obtain ⟨init, rfl⟩ := List.getLast?_eq_some_iff.mp (eq_of_beq hlast)
        rw [List.dropLast_concat] at hall
        rcases List.mem_append.mp hmem with hinit | hend
        · exact hplain hall c hinit
        · rw [List.mem_singleton.mp hend]
          decide
  refine ⟨fun hnil => hchars.1 (List.map_eq_nil_iff.mp hnil), ?_⟩
  intro g hg
  obtain ⟨c, hc, rfl⟩ := List.mem_map.mp hg
  exact hchars.2 c hc

theorem Named.not_mem (h : Named attr) {g : Glyph} (hg : isNamePart g = false) : g ∉ attr :=
  fun hmem => Bool.noConfusion (hg.symm.trans (h.plain g hmem))

/-! ## A value that is set -/

def Unquoted (t : Text) : Prop := ∀ g ∈ t, isQuote g = false

def Blanks (t : Text) : Prop := ∀ g ∈ t, g.satisfies isBlank = true

theorem isQuote_iff {g : Glyph} : isQuote g = true ↔ g = .char '"' ∨ g = .char '\'' := by
  rw [isQuote, Bool.or_eq_true, beq_iff_eq, beq_iff_eq]

theorem not_blank_of_isQuote {g : Glyph} (h : isQuote g = true) : g.satisfies isBlank = false := by
  rcases isQuote_iff.mp h with rfl | rfl <;> decide

theorem Named.unquoted (h : Named attr) : Unquoted attr := by
  intro g hg
  by_contra hquote
  rcases isQuote_iff.mp (Bool.not_eq_false _ ▸ hquote) with rfl | rfl
  · exact h.not_mem (by decide) hg
  · exact h.not_mem (by decide) hg

theorem Blanks.unquoted {t : Text} (h : Blanks t) : Unquoted t := by
  intro g hg
  by_contra hquote
  exact Bool.noConfusion ((h g hg).symm.trans (not_blank_of_isQuote (Bool.not_eq_false _ ▸ hquote)))

/-- The text begins with a value in quotes of either kind, and goes on with `behind`. -/
inductive Quotes (value behind : Text) : Text → Prop where
  | mk {opening closing : Glyph} : isQuote opening = true → isQuote closing = true → value ≠ [] →
      Unquoted value → Quotes value behind (opening :: (value ++ closing :: behind))

/-- The text begins with the name, an equals sign and a value in quotes. -/
inductive Sets (attr value : Text) : Text → Prop where
  | mk {left right quoted behind : Text} : Blanks left → Blanks right → Quotes value behind quoted →
      Sets attr value (attr ++ (left ++ .char '=' :: (right ++ quoted)))

theorem takeWhile_unquoted (behind : Text) (h : Unquoted value) (hquote : isQuote quote = true) :
    (value ++ quote :: behind).takeWhile (fun g => !isQuote g) = value := by
  rw [List.takeWhile_append_of_pos fun g hg => by rw [h g hg]; rfl, List.takeWhile_cons, hquote]
  exact List.append_nil _

/-- The first quotes of two equal texts stand at the same place. -/
theorem first_quote {front front' back back' : Text} {first first' : Glyph} (hfront : Unquoted front)
    (hfront' : Unquoted front') (hfirst : isQuote first = true) (hfirst' : isQuote first' = true)
    (h : front ++ first :: back = front' ++ first' :: back') : front = front' ∧ back = back' := by
  have hfronts : front = front' := by
    rw [← takeWhile_unquoted back hfront hfirst, h, takeWhile_unquoted back' hfront' hfirst']
  rw [hfronts] at h
  exact ⟨hfronts, (List.cons.inj (List.append_cancel_left h)).2⟩

theorem drop_takeWhile {α : Type} (p : α → Bool) (xs : List α) :
    xs.drop (xs.takeWhile p).length = xs.dropWhile p := by
  rw [List.takeWhile_eq_take_findIdx_not, List.dropWhile_eq_drop_findIdx_not, List.length_take,
    Nat.min_eq_left List.findIdx_le_length]

theorem quotedValue?_iff {text : Text} :
    quotedValue? text = some (value, behind) ↔ Quotes value behind text := by
  constructor
  · intro h
    cases text with
    | nil => cases h
    | cons opening rest =>
      unfold quotedValue? at h
      dsimp only at h
      rw [drop_takeWhile] at h
      split at h
      · rename_i closing after hboth hafter
        cases h
        obtain ⟨hopening, hnonempty⟩ := Bool.and_eq_true_iff.mp hboth
        have hclosing := List.head?_dropWhile_not (fun g => !isQuote g) rest
        rw [hafter] at hclosing
        have hrest := List.takeWhile_append_dropWhile (p := fun g => !isQuote g) (l := rest)
        rw [hafter] at hrest
        have hclean : Unquoted (rest.takeWhile fun g => !isQuote g) := by
          intro g hg
          simpa using List.all_eq_true.mp List.all_takeWhile g hg
        have hquotes : Quotes _ behind (opening :: (_ ++ closing :: behind)) :=
          .mk hopening (by simpa using hclosing) (by simpa using hnonempty) hclean
        rwa [hrest] at hquotes
      · cases h
  · intro h
    obtain ⟨hopening, hclosing, hnonempty, hclean⟩ := h
    unfold quotedValue?
    dsimp only
    rw [takeWhile_unquoted behind hclean hclosing, List.drop_left, hopening]
    rw [List.isEmpty_eq_false_iff.mpr hnonempty]
    rfl

theorem valueAt?_iff {text : Text} : valueAt? attr text = some value ↔ Sets attr value text := by
  constructor
  · intro h
    unfold valueAt? at h
    split at h
    · cases h
    rename_i hstarts
    obtain ⟨rest, rfl⟩ : attr <+: text := by simpa [Text.startsWith] using hstarts
    rw [List.drop_left] at h
    dsimp only at h
    split at h
    · rename_i equals back hback
      split at h
      · rename_i hequals
        obtain ⟨⟨found, behind⟩, hquoted, hvalue⟩ := Option.map_eq_some_iff.mp h
        cases hvalue
        have hsets : Sets attr found (attr ++ (rest.takeWhile (Glyph.satisfies isBlank) ++
            .char '=' :: (back.takeWhile (Glyph.satisfies isBlank) ++ _))) :=
          .mk (fun g hg => List.all_eq_true.mp List.all_takeWhile g hg)
            (fun g hg => List.all_eq_true.mp List.all_takeWhile g hg) (quotedValue?_iff.mp hquoted)
        rwa [List.takeWhile_append_dropWhile, ← eq_of_beq hequals, ← hback,
          List.takeWhile_append_dropWhile] at hsets
      · cases h
    · cases h
  · intro h
    obtain ⟨hleft, hright, hquoted⟩ := h
    rename_i left right quoted behind
    unfold valueAt?
    have hstarts : Text.startsWith (attr ++ (left ++ .char '=' :: (right ++ quoted))) attr = true :=
      List.isPrefixOf_iff_prefix.mpr (List.prefix_append _ _)
    have hquotedHead : quoted.dropWhile (Glyph.satisfies isBlank) = quoted := by
      cases hquoted with
      | mk hopening _ _ _ => exact List.dropWhile_cons_of_neg (by rw [not_blank_of_isQuote hopening]; decide)
    rw [hstarts, List.drop_left]
    dsimp only
    rw [List.dropWhile_append_of_pos hleft, List.dropWhile_cons_of_neg (by decide)]
    dsimp only
    rw [List.dropWhile_append_of_pos hright, hquotedHead, quotedValue?_iff.mpr hquoted]
    rfl

/-! ## The search -/

theorem testIdOf?_some (h : testIdOf? attr selector = some value) :
    ∃ front found, selector = front ++ found ∧ Sets attr value found := by
  obtain ⟨found, hfound, hvalue⟩ := List.exists_of_findSome?_eq_some h
  obtain ⟨front, hfront⟩ := Text.mem_suffixes.mp hfound
  exact ⟨front, found, hfront.symm, valueAt?_iff.mp hvalue⟩

theorem isSome_testIdOf? (front : Text) {found : Text} (h : Sets attr value found) :
    (testIdOf? attr (front ++ found)).isSome = true := by
  rw [testIdOf?, List.findSome?_isSome_iff]
  exact ⟨found, Text.mem_suffixes.mpr (List.suffix_append _ _), by rw [valueAt?_iff.mpr h]; rfl⟩

/-- What the search yields is no empty text and has no quotes. -/
theorem testIdOf?_plain (h : testIdOf? attr selector = some value) : value ≠ [] ∧ Unquoted value := by
  obtain ⟨-, -, -, -, -, hquotes⟩ := testIdOf?_some h
  cases hquotes with
  | mk _ _ hnonempty hclean => exact ⟨hnonempty, hclean⟩

/-- The search passes over what no occurrence of the name begins in. -/
theorem testIdOf?_append {found : Text}
    (h : ∀ t u, before = t ++ u → u ≠ [] → ¬ attr <+: u ++ found) :
    testIdOf? attr (before ++ found) = testIdOf? attr found := by
  induction before with
  | nil => rfl
  | cons g rest ih =>
    have hnone : valueAt? attr (g :: rest ++ found) = none := by
      unfold valueAt?
      rw [if_pos]
      rw [Bool.not_eq_true', Bool.eq_false_iff, ne_eq, Text.startsWith, List.isPrefixOf_iff_prefix]
      exact h [] (g :: rest) rfl (List.cons_ne_nil _ _)
    rw [← ih fun t u hrest hu => h (g :: t) u (by rw [hrest]; rfl) hu]
    show ((g :: rest ++ found) :: Text.suffixes (rest ++ found)).findSome? (valueAt? attr) = _
    rw [List.findSome?_cons, hnone]
    rfl

theorem testIdOf?_head {found : Text} (h : valueAt? attr found = some value) :
    testIdOf? attr found = some value := by
  cases found with
  | nil => rw [testIdOf?, Text.suffixes, List.findSome?_cons, h]
  | cons g rest => rw [testIdOf?, Text.suffixes, List.findSome?_cons, h]

theorem testIdOf?_passes {found : Text} (hnamed : Named attr) (hbefore : Text.contains before attr = false)
    (hfound : valueAt? attr found = some value) :
    testIdOf? attr (before ++ .char '[' :: found) = some value := by
  have hpasses : ∀ t u, before ++ [.char '['] = t ++ u → u ≠ [] → ¬ attr <+: u ++ found := by
    intro t u hsplit hu hoccurs
    obtain ⟨init, last, rfl⟩ := (List.eq_nil_or_concat u).resolve_left hu
    rw [List.concat_eq_append, ← List.append_assoc] at hsplit
    obtain ⟨hbefore', hlast⟩ := List.append_inj' hsplit rfl
    cases hlast
    rw [List.concat_eq_append, List.append_assoc] at hoccurs
    have hinside := prefix_of_prefix_append_cons hoccurs (hnamed.not_mem (by decide))
    have hcontains : Text.contains before attr = true :=
      Text.contains_iff.mpr (hinside.isInfix.trans ⟨t, [], by rw [hbefore', List.append_nil]⟩)
    exact Bool.noConfusion (hbefore.symm.trans hcontains)
  have hsplit : before ++ .char '[' :: found = (before ++ [.char '[']) ++ found := by
    rw [List.append_assoc]
    rfl
  rw [hsplit, testIdOf?_append hpasses]
  exact testIdOf?_head hfound

/-! ## Where the value ends -/

/-- `name = "value"`, with blanks around the sign, in quotes of the given kind. -/
def spelt (name left right value : Text) (quote : Glyph) : Text :=
  name ++ (left ++ .char '=' :: (right ++ quote :: (value ++ [quote])))

def upToQuote (value : Text) : Text := value.takeWhile fun g => !isQuote g

theorem upToQuote_eq_self (h : Unquoted value) : upToQuote value = value := by
  refine List.takeWhile_eq_self_iff.mpr fun g hg => ?_
  rw [h g hg]
  rfl

/-- The quote that ends the value is the first in it, or the one behind it. -/
theorem quotes_upToQuote (behind : Text) (hquote : isQuote quote = true) (hfront : upToQuote value ≠ []) :
    ∃ back, Quotes (upToQuote value) back (quote :: (value ++ quote :: behind)) := by
  have hvalue : upToQuote value ++ value.dropWhile (fun g => !isQuote g) = value :=
    List.takeWhile_append_dropWhile
  have hclean : Unquoted (upToQuote value) := by
    intro g hg
    simpa using List.all_eq_true.mp List.all_takeWhile g hg
  have hclosing := List.head?_dropWhile_not (fun g => !isQuote g) value
  generalize upToQuote value = front at hvalue hfront hclean ⊢
  generalize value.dropWhile (fun g => !isQuote g) = rest at hvalue hclosing
  subst hvalue
  cases rest with
  | nil =>
    rw [List.append_nil]
    exact ⟨behind, .mk hquote hquote hfront hclean⟩
  | cons closing rest =>
    rw [List.append_assoc]
    exact ⟨rest ++ quote :: behind, .mk hquote (by simpa using hclosing) hfront hclean⟩

theorem sets_upToQuote (behind : Text) (hleft : Blanks left) (hright : Blanks right)
    (hquote : isQuote quote = true) (hfront : upToQuote value ≠ []) :
    Sets attr (upToQuote value) (spelt attr left right value quote ++ behind) := by
  obtain ⟨back, hquotes⟩ := quotes_upToQuote behind hquote hfront
  have hsets : Sets attr _ _ := .mk hleft hright hquotes
  unfold spelt
  simpa only [List.append_assoc, List.cons_append, List.nil_append] using hsets

/-- A test id that is set behind the first `[` that the name follows is found up to its first quote, of
whichever kind. So all of it is found just when it has no quotes. -/
theorem testIdOf?_set {name : String} (hname : Setting.isAttributeName name = true)
    (hbefore : Text.contains before name = false) (hleft : Blanks left) (hright : Blanks right)
    (hquote : isQuote quote = true) (hvalue : value ≠ [])
    (hselector : selector =
      before ++ .char '[' :: (spelt name left right value quote ++ .char ']' :: behind)) :
    (testIdOf? name selector = some value ↔ Unquoted value) ∧
      (upToQuote value ≠ [] → testIdOf? name selector = some (upToQuote value)) := by
  have hfound : upToQuote value ≠ [] → testIdOf? name selector = some (upToQuote value) := by
    intro hfront
    rw [hselector]
    exact testIdOf?_passes (named_of_isAttributeName hname) hbefore
      (valueAt?_iff.mpr (sets_upToQuote _ hleft hright hquote hfront))
  refine ⟨⟨fun h => (testIdOf?_plain h).2, ?_⟩, hfound⟩
  intro hclean
  rw [upToQuote_eq_self hclean] at hfound
  exact hfound hvalue

theorem testIdOf?_set_spaced :
    Setting.isAttributeName "data-testid" = true ∧
      Text.contains ("a" : String) ("data-testid" : String) = false ∧ Blanks (" " : String) ∧
      Blanks ([] : Text) ∧ isQuote (.char '"') = true ∧ Text.ofString "v" ≠ [] ∧
      (testIdOf? ("data-testid" : String) ("a[data-testid =\"v\"] b" : String) = some (Text.ofString "v") ↔
        Unquoted (Text.ofString "v")) := by
  have hblank : Blanks (Text.ofString " ") := by
    intro g hg
    rw [List.mem_singleton.mp hg]
    decide
  refine ⟨by decide, by decide, hblank, List.forall_mem_nil _, by decide, by decide, ?_⟩
  have hselector : Text.ofString "a[data-testid =\"v\"] b" = Text.ofString "a" ++ .char '[' ::
      (spelt ("data-testid" : String) (" " : String) [] ("v" : String) (.char '"') ++
        .char ']' :: Text.ofString " b") := by decide
  exact (testIdOf?_set (by decide) (by decide) hblank (List.forall_mem_nil _) (by decide) (by decide)
    hselector).1

/-- An apostrophe ends a value in double quotes. -/
theorem value_cut_at_apostrophe :
    Setting.isAttributeName "data-testid" = true ∧ Glyph.char '"' ∉ Text.ofString "it's" ∧
      Text.ofString "[data-testid=\"it's\"]" =
        .char '[' :: (spelt ("data-testid" : String) [] [] ("it's" : String) (.char '"') ++ [.char ']']) ∧
      testIdOf? ("data-testid" : String) ("[data-testid=\"it's\"]" : String) = some (Text.ofString "it") := by
  decide +kernel

/-! ## Names within names -/

/-- The longer name ends in the shorter one; blanks may follow. -/
def Trails (attr longer : Text) : Prop := ∃ front back, longer = front ++ attr ++ back ∧ Blanks back

variable {other : Text}

theorem Unquoted.append {t u : Text} (ht : Unquoted t) (hu : Unquoted u) : Unquoted (t ++ u) :=
  fun g hg => (List.mem_append.mp hg).elim (ht g) (hu g)

theorem unquoted_singleton {g : Glyph} (h : isQuote g = false) : Unquoted [g] :=
  fun _ hmem => List.mem_singleton.mp hmem ▸ h

theorem countP_quotes (h : Unquoted value) : value.countP isQuote = 0 :=
  List.countP_eq_zero.mpr fun g hg => by rw [h g hg]; decide

theorem countP_quoted {front back : Text} {opening closing : Glyph} (hvalue : Unquoted value)
    (hopening : isQuote opening = true) (hclosing : isQuote closing = true) :
    (front ++ opening :: (value ++ closing :: back)).countP isQuote =
      front.countP isQuote + back.countP isQuote + 2 := by
  rw [List.countP_append, List.countP_cons_of_pos hopening, List.countP_append,
    List.countP_cons_of_pos hclosing, countP_quotes hvalue]
  omega

/-- The selector `[name="value"]`. -/
def plain (name value : Text) : Text :=
  .char '[' :: (spelt name [] [] value (.char '"') ++ [.char ']'])

/-- The equals sign of `[name="value"]` is the last thing before the value, so what is assigned is what
ends the name. -/
theorem trails_of_head {front : Text} (hattr : Named attr) (hleft : Blanks left) (hright : Blanks right)
    (h : .char '[' :: (other ++ [.char '=']) = front ++ (attr ++ (left ++ .char '=' :: right))) :
    Trails attr other := by
  rcases List.eq_nil_or_concat right with rfl | ⟨init, last, rfl⟩
  · have hname : .char '[' :: other = front ++ (attr ++ left) := by
      refine (List.append_left_inj [Glyph.char '=']).mp ?_
      simpa only [List.append_assoc, List.cons_append] using h
    cases front with
    | nil =>
      obtain ⟨g, rest, rfl⟩ := List.exists_cons_of_ne_nil hattr.nonempty
      obtain ⟨rfl, -⟩ := List.cons.inj hname
      exact absurd List.mem_cons_self (hattr.not_mem (by decide))
    | cons g rest =>
      obtain ⟨-, hother⟩ := List.cons.inj hname
      exact ⟨rest, left, by rw [hother, List.append_assoc]; rfl, hleft⟩
  · have hends : (.char '[' :: other) ++ [.char '='] =
        (front ++ (attr ++ (left ++ .char '=' :: init))) ++ [last] := by
      simpa only [List.concat_eq_append, List.append_assoc, List.cons_append] using h
    obtain ⟨-, hlast⟩ := List.append_inj' hends rfl
    cases hlast
    have hmem : .char '=' ∈ init.concat (.char '=') := by
      rw [List.concat_eq_append]
      exact List.mem_append_right _ (List.mem_singleton_self _)
    exact absurd (hright _ hmem) (by decide)

/-- What is set within `[other="value"]` is its value: there are no more than two quotes. -/
theorem trails_of_sets {found front v : Text} (hattr : Named attr) (hother : Named other)
    (hvalue : Unquoted value) (hfound : plain other value = front ++ found) (hsets : Sets attr v found) :
    v = value ∧ Trails attr other := by
  obtain ⟨hleft, hright, ⟨hopening, hclosing, hnonempty, hclean⟩⟩ := hsets
  rename_i left right back opening closing
  have hhead : Unquoted (.char '[' :: (other ++ [.char '='])) :=
    (unquoted_singleton (by decide)).append (hother.unquoted.append (unquoted_singleton (by decide)))
  have hmiddle : Unquoted (attr ++ (left ++ .char '=' :: right)) :=
    hattr.unquoted.append (hleft.unquoted.append
      ((unquoted_singleton (g := .char '=') (by decide)).append hright.unquoted))
  replace hfound : .char '[' :: (other ++ [.char '=']) ++ .char '"' :: (value ++ .char '"' :: [.char ']']) =
      (front ++ (attr ++ (left ++ .char '=' :: right))) ++ opening :: (v ++ closing :: back) := by
    unfold plain spelt at hfound
    simpa only [List.append_assoc, List.cons_append, List.nil_append] using hfound
  have hfront : Unquoted front := by
    have hcount := congrArg (List.countP isQuote) hfound
    rw [countP_quoted hvalue rfl rfl, countP_quoted hclean hopening hclosing, countP_quotes hhead,
      List.countP_append, countP_quotes (unquoted_singleton (g := .char ']') (by decide))] at hcount
    have hnone : front.countP isQuote = 0 := by omega
    exact fun g hg => Bool.not_eq_true _ ▸ List.countP_eq_zero.mp hnone g hg
  obtain ⟨hheads, hbacks⟩ := first_quote hhead (hfront.append hmiddle) rfl hopening hfound
  exact ⟨(first_quote hvalue hclean rfl hclosing hbacks).1.symm, trails_of_head hattr hleft hright hheads⟩

theorem testIdOf?_plain_iff {v : Text} (hattr : Named attr) (hother : Named other) (hvalue : Unquoted value) :
    testIdOf? attr (plain other value) = some v ↔ v = value ∧ value ≠ [] ∧ Trails attr other := by
  have hfound : ∀ {v}, testIdOf? attr (plain other value) = some v →
      v = value ∧ value ≠ [] ∧ Trails attr other := by
    intro v h
    obtain ⟨front, found, hfound, hsets⟩ := testIdOf?_some h
    obtain ⟨rfl, htrails⟩ := trails_of_sets hattr hother hvalue hfound hsets
    exact ⟨rfl, (testIdOf?_plain h).1, htrails⟩
  refine ⟨hfound, ?_⟩
  intro ⟨hv, hnonempty, front, back, hother', hback⟩
  have hsets : Sets attr _ (spelt attr back [] value (.char '"') ++ [.char ']']) :=
    sets_upToQuote [.char ']'] hback (List.forall_mem_nil _) rfl (by rwa [upToQuote_eq_self hvalue])
  have hsome := isSome_testIdOf? (.char '[' :: front) hsets
  have hselector : .char '[' :: front ++ (spelt attr back [] value (.char '"') ++ [.char ']']) =
      plain other value := by
    unfold plain spelt
    simp only [hother', List.append_assoc, List.cons_append, List.nil_append]
  rw [hselector] at hsome
  obtain ⟨w, hw⟩ := Option.isSome_iff_exists.mp hsome
  rw [hw, (hfound hw).1, hv]

/-! ## What a call is taken for -/

/-- What a selector in the form of a text selects by. -/
def ofText (attr selector : Text) : Selector :=
  match testIdOf? attr selector with
  | some value => .testId value
  | none =>
    match roleOf? selector with
    | some value => .role value
    | none => .other

variable {d : Document} {argument : Handle}

theorem kind_of_literalValue? (h : argument.literalValue? d = .ok (some value)) :
    argument.kind d = .ok .string := by
  obtain ⟨kind, hkind, h⟩ := looks_bind h
  split at h
  · cases h
  · rename_i hstring
    rw [hkind, show kind = .string by simpa using hstring]

theorem classify_literal (h : argument.literalValue? d = .ok (some selector)) :
    classify attr (some argument) d = .ok (ofText attr selector) := by
  unfold classify ofText
  dsimp only
  rw [look_bind_of_ok (kind_of_literalValue? h), if_neg (by decide), look_bind_of_ok h]
  dsimp only
  cases testIdOf? attr selector with
  | some value => rfl
  | none =>
    dsimp only
    cases roleOf? selector with
    | some value => rfl
    | none => rfl

theorem ofText_testId_iff :
    ofText attr selector = .testId value ↔ testIdOf? attr selector = some value := by
  unfold ofText
  cases testIdOf? attr selector with
  | some found => simp
  | none =>
    cases roleOf? selector with
    | some role => simp
    | none => simp

def isTestIdQuery (text : Text) : Bool :=
  text.startsWith "screen.getByTestId(" || text.startsWith "screen.queryByTestId("

theorem startsWith_callText (callee : Text) (arguments : List Text) :
    (callText callee arguments).startsWith (callee ++ [.char '(']) = true := by
  unfold callText Text.startsWith
  rw [List.isPrefixOf_iff_prefix]
  exact ⟨Text.join ", " arguments ++ [.char ')'],
    by simp only [List.append_assoc, List.cons_append, List.nil_append]⟩

theorem Answers.isTestIdQuery_iff {denied : Prop} {chosen : Selector} {text : Text}
    (h : Answers denied chosen text) : isTestIdQuery text = true ↔ ∃ value, chosen = .testId value := by
  cases h with
  | absent _ =>
    exact iff_of_true (Bool.or_eq_true_iff.mpr (.inr (startsWith_callText "screen.queryByTestId" _))) ⟨_, rfl⟩
  | present _ =>
    exact iff_of_true (Bool.or_eq_true_iff.mpr (.inl (startsWith_callText "screen.getByTestId" _))) ⟨_, rfl⟩
  | role =>
    constructor
    · intro h
      cases h
    · intro h
      obtain ⟨value, hvalue⟩ := h
      cases hvalue

/-- A `find` by `[other="value"]` counts as one by the test id `value` just when the other name ends in
the name looked for: the name of the attribute itself does, and so do longer names. -/
theorem testId_iff_trails {name other : String} (hname : Setting.isAttributeName name = true)
    (hother : Setting.isAttributeName other = true) (hvalue : Unquoted value)
    (hfirst : call.firstArgument? d = .ok (some argument))
    (hselector : argument.literalValue? d = .ok (some (plain other value))) :
    (∀ v, classify name (some argument) d = .ok (.testId v) ↔
        v = value ∧ value ≠ [] ∧ Trails name other) ∧
      ∀ text, query? name call d = .ok (some text) →
        (isTestIdQuery text = true ↔ value ≠ [] ∧ Trails name other) := by
  have hclassify : classify name (some argument) d = .ok (ofText name (plain other value)) :=
    classify_literal hselector
  have hiff : ∀ v, ofText name (plain other value) = .testId v ↔
      v = value ∧ value ≠ [] ∧ Trails name other := fun v =>
    ofText_testId_iff.trans (testIdOf?_plain_iff (named_of_isAttributeName hname)
      (named_of_isAttributeName hother) hvalue)
  refine ⟨?_, ?_⟩
  · intro v
    rw [hclassify, ← hiff v]
    exact ⟨Except.ok.inj, congrArg _⟩
  · intro text hquery
    have hasks := (query?_ok hquery text).mp rfl
    rw [((asks_iff hfirst hclassify).mp hasks).isTestIdQuery_iff]
    constructor
    · intro ⟨v, hv⟩
      exact ((hiff v).mp hv).2
    · intro hboth
      exact ⟨value, (hiff value).mpr ⟨rfl, hboth⟩⟩

/-- The literal that the first `find` call of a script has for its first argument. -/
def literalOf? (source : String) : Option Text :=
  match Document.ofString none source with
  | .error _ => none
  | .ok d =>
    match findAll findCalls d with
    | .ok (call :: _) =>
      match call.firstArgument? d with
      | .ok (some argument) => (argument.literalValue? d).toOption.join
      | _ => none
    | _ => none

theorem exists_of_literalOf? {source : String} (h : literalOf? source = some value) :
    ∃ d, ∃ call argument : Handle, Document.ofString none source = .ok d ∧
      call.firstArgument? d = .ok (some argument) ∧ argument.literalValue? d = .ok (some value) := by
  unfold literalOf? at h
  split at h
  · cases h
  · rename_i d hd
    split at h
    · rename_i call rest hcalls
      split at h
      · rename_i argument hargument
        refine ⟨d, call, argument, hd, hargument, ?_⟩
        cases hliteral : argument.literalValue? d with
        | error e =>
          rw [hliteral] at h
          cases h
        | ok literal =>
          rw [hliteral] at h
          exact congrArg _ h
      · cases h
    · cases h

theorem testId_iff_trails_infix :
    ∃ d, ∃ call argument : Handle, Document.ofString none "x.find('[my-data-id-no=\"v\"]')" = .ok d ∧
      Setting.isAttributeName "data-id" = true ∧ Setting.isAttributeName "my-data-id-no" = true ∧
      Unquoted (Text.ofString "v") ∧ call.firstArgument? d = .ok (some argument) ∧
      argument.literalValue? d = .ok (some (plain ("my-data-id-no" : String) ("v" : String))) ∧
      ∀ text, query? ("data-id" : String) call d = .ok (some text) → (isTestIdQuery text = true ↔
        Text.ofString "v" ≠ [] ∧ Trails ("data-id" : String) ("my-data-id-no" : String)) := by
  have hread : literalOf? "x.find('[my-data-id-no=\"v\"]')" =
      some (plain ("my-data-id-no" : String) ("v" : String)) := by
    decide +kernel
  have hclean : Unquoted (Text.ofString "v") := unquoted_singleton (by decide)
  obtain ⟨d, call, argument, hd, hfirst, hselector⟩ := exists_of_literalOf? hread
  exact ⟨d, call, argument, hd, by decide, by decide, hclean, hfirst, hselector,
    (testId_iff_trails (by decide) (by decide) hclean hfirst hselector).2⟩

/-- A value of `x-data-testid` is taken for a test id. -/
theorem longer_name_queried :
    Setting.isAttributeName "data-testid" = true ∧ Setting.isAttributeName "x-data-testid" = true ∧
      Text.ofString "data-testid" ≠ Text.ofString "x-data-testid" ∧ Unquoted (Text.ofString "v") ∧
      ∃ d s, Document.ofString none "x.find('[x-data-testid=\"v\"]');\n" = .ok d ∧
        literalOf? "x.find('[x-data-testid=\"v\"]');\n" =
          some (plain ("x-data-testid" : String) ("v" : String)) ∧
        convert ("data-testid" : String) ⟨d, none, []⟩ = .ok 1 s ∧
        s.document.source = "screen.getByTestId(\"v\");\n".toUTF8 := by
  have hliteral : literalOf? "x.find('[x-data-testid=\"v\"]');\n" =
      some (plain ("x-data-testid" : String) ("v" : String)) := by
    decide +kernel
  have hrun : (convert ("data-testid" : String)).onScript? "x.find('[x-data-testid=\"v\"]');\n"
      (fun _ n s => (n, spelledBy ["screen.getByTestId(\"v\");\n"] s.document.source)) = some (1, true) := by
    decide +kernel
  obtain ⟨d, n, s, hd, hrun, hobserved⟩ := Pass.exists_of_onScript? hrun
  obtain ⟨rfl, hspelled⟩ := Prod.mk.inj hobserved
  exact ⟨by decide, by decide, by decide, unquoted_singleton (by decide), d, s, hd, hliteral, hrun,
    eq_of_spelledBy hspelled⟩

end Selector

end TestMigration
