import TestMigration.Proofs.Decoding
import TestMigration.Convert.Guidance

/-! Queries that are proposed for a selector. What a query asks for, a test id, a role or a text, is put between
single quotes as it is. That is a literal for it exactly if it is one text with no quote, no backslash and no end
of line in it. -/

namespace TestMigration

/-! ## What stands between quotes -/

namespace Quoted

/-- Part of the inside of a literal: a piece, or half of a pair that stands for itself. -/
inductive Part where
  | piece (p : Piece)
  | half (n : Fin 0x800)

namespace Part

def written : Part → Text
  | piece p => p.written.map .char
  | half n => [.lone n]

/-- The code units that the language takes the part for. -/
def units : Part → List Nat
  | piece p => p.codePoint?.toList.flatMap unitsOf
  | half n => unitsIn (.lone n)

end Part

/-- The text is one literal with this quote, and the language reads the value from it. -/
def Denotes (quote : Char) (written value : Text) : Prop :=
  ∃ parts : List Part, written = .char quote :: parts.flatMap Part.written ++ [.char quote] ∧
    (∀ part ∈ parts, part.written ≠ [.char quote]) ∧
    (parts.IsChain fun p q => p.written = Text.ofString "\\0" →
      ∀ g ∈ q.written.head?, g.satisfies Char.isDigit = false) ∧
    parts.flatMap Part.units = value.flatMap unitsIn

/-- The text between quotes. -/
def within (quote : Char) (t : Text) : Text := .char quote :: t ++ [.char quote]

/-- Characters that do not stand for themselves in a literal. -/
def needsEscape (quote c : Char) : Bool := c == quote || c == '\\' || c == '\n' || c == '\r'

variable {quote c : Char} {t : Text} {parts : List Part}

/-- A literal denotes the text that the language assigns to it. -/
theorem Literal.denotes (l : Literal) : Denotes l.quote (.ofString l.written) l.text := by
  have hinj : ∀ cs ds : List Char, cs.map Glyph.char = ds.map Glyph.char → cs = ds :=
    fun _ _ => (List.map_injective_iff.mpr fun _ _ => Glyph.char.inj).eq_iff.mp
  refine ⟨l.pieces.map .piece, ?_, ?_, ?_, ?_⟩
  · unfold Literal.written Literal.body Text.ofString
    rw [String.toList_ofList, List.flatMap_map, List.map_append, List.map_cons, List.map_flatMap]
    rfl
  · rintro _ hpart hbare
    obtain ⟨p, hp, rfl⟩ := List.mem_map.mp hpart
    exact l.bare p hp (hinj _ _ hbare)
  · rw [List.isChain_map]
    refine l.zeros.imp fun p q hzero hwritten g hg => ?_
    change g ∈ (q.written.map Glyph.char).head? at hg
    rw [List.head?_map] at hg
    obtain ⟨c, hc, rfl⟩ := Option.map_eq_some_iff.mp hg
    exact hzero (hinj _ _ hwritten) c hc
  · rw [List.flatMap_map]
    unfold text
    rw [unitsIn_textOf _ units_lt, codePoints, List.filterMap_eq_flatMap_toList, List.flatMap_assoc]
    rfl

theorem length_unitsOf (n : Nat) : 1 ≤ (unitsOf n).length ∧ (unitsOf n).length ≤ 2 := by
  unfold unitsOf
  split
  · exact ⟨Nat.le_refl 1, Nat.le_succ 1⟩
  · exact ⟨Nat.le_succ 1, Nat.le_refl 2⟩

theorem length_le_units (cs : List Char) : cs.length ≤ ((cs.map Glyph.char).flatMap unitsIn).length := by
  induction cs with
  | nil => exact Nat.le_refl 0
  | cons c cs ih =>
    have hone := (length_unitsOf c.toNat).1
    rw [List.map_cons, List.flatMap_cons, List.length_append, List.length_cons]
    change _ ≤ (unitsOf c.toNat).length + _
    omega

/-- What stands for itself. -/
def Part.Verbatim : Part → Prop
  | .piece p => ∃ c h, p = .plain c h
  | .half _ => True

theorem length_escapedChar (c : Char) : (unitsOf (escapedChar c).toNat).length ≤ (unitsOf c.toNat).length := by
  unfold escapedChar
  split
  all_goals exact Nat.le_refl _

theorem Part.length_units_piece (p : Piece) : (Part.piece p).units.length ≤ 2 := by
  change (p.codePoint?.toList.flatMap unitsOf).length ≤ 2
  cases p.codePoint? with
  | none => exact Nat.zero_le 2
  | some n =>
    rw [Option.toList_some, List.flatMap_singleton]
    exact (length_unitsOf n).2

/-- An escape takes more code units than it stands for. -/
theorem Part.verbatim_or_lt (part : Part) : part.Verbatim ∧ part.units = part.written.flatMap unitsIn ∨
    part.units.length < (part.written.flatMap unitsIn).length := by
  cases part with
  | half n => exact .inl ⟨trivial, rfl⟩
  | piece p =>
    have htwo := Part.length_units_piece p
    have hlong : p.written.length ≤ ((Part.piece p).written.flatMap unitsIn).length := length_le_units p.written
    cases p with
    | plain c h => exact .inl ⟨⟨c, h, rfl⟩, rfl⟩
    | escaped c h =>
      refine .inr ?_
      change (unitsOf (escapedChar c).toNat ++ []).length < (unitsOf '\\'.toNat ++ (unitsOf c.toNat ++ [])).length
      have hshort := length_escapedChar c
      have hone := (length_unitsOf '\\'.toNat).1
      simp only [List.append_nil, List.length_append]
      omega
    | hex a b => exact .inr (htwo.trans_lt (Nat.lt_of_lt_of_le (by decide : 2 < 4) hlong))
    | unit a b c d => exact .inr (htwo.trans_lt (Nat.lt_of_lt_of_le (by decide : 2 < 6) hlong))
    | point digits h =>
      refine .inr (htwo.trans_lt (Nat.lt_of_lt_of_le ?_ hlong))
      change 2 < ('\\' :: 'u' :: '\x7b' :: digits.map HexDigit.char ++ ['\x7d']).length
      simp
    | continued b =>
      refine .inr (Nat.lt_of_lt_of_le (Nat.succ_pos _) hlong)

theorem length_units_le (parts : List Part) :
    (parts.flatMap Part.units).length ≤ ((parts.flatMap Part.written).flatMap unitsIn).length := by
  induction parts with
  | nil => exact Nat.le_refl 0
  | cons part parts ih =>
    have hpart : part.units.length ≤ (part.written.flatMap unitsIn).length := by
      rcases part.verbatim_or_lt with ⟨-, hsame⟩ | hlt
      · exact (congrArg List.length hsame).le
      · exact hlt.le
    rw [List.flatMap_cons, List.flatMap_cons, List.flatMap_append, List.length_append, List.length_append]
    exact Nat.add_le_add hpart ih

/-- Where the parts take as many code units as they stand for, all of them stand for themselves. -/
theorem verbatim_of_length
    (h : (parts.flatMap Part.units).length = ((parts.flatMap Part.written).flatMap unitsIn).length) :
    ∀ part ∈ parts, part.Verbatim := by
  induction parts with
  | nil => exact List.forall_mem_nil _
  | cons part parts ih =>
    rw [List.flatMap_cons, List.flatMap_cons, List.flatMap_append, List.length_append, List.length_append] at h
    have hrest := length_units_le parts
    rcases part.verbatim_or_lt with ⟨hverbatim, hsame⟩ | hlt
    · rw [hsame] at h
      exact List.forall_mem_cons.mpr ⟨hverbatim, ih (Nat.add_left_cancel h)⟩
    · omega

theorem exists_parts (h : ∀ g ∈ t, g.satisfies (needsEscape quote) = false) : ∃ parts : List Part,
    parts.flatMap Part.written = t ∧ parts.flatMap Part.units = t.flatMap unitsIn ∧
      ∀ part ∈ parts, part.written ≠ [.char quote] ∧ part.written ≠ Text.ofString "\\0" := by
  induction t with
  | nil => exact ⟨[], rfl, rfl, List.forall_mem_nil _⟩
  | cons g t ih =>
    obtain ⟨hg, ht⟩ := List.forall_mem_cons.mp h
    obtain ⟨parts, hwritten, hunits, hparts⟩ := ih ht
    obtain ⟨part, hpart, hself, hplain⟩ : ∃ part : Part, part.written = [g] ∧ part.units = unitsIn g ∧
        part.written ≠ [.char quote] ∧ part.written ≠ Text.ofString "\\0" := by
      cases g with
      | lone n => exact ⟨.half n, rfl, rfl, nofun, nofun⟩
      | char c =>
        simp only [Glyph.satisfies, needsEscape, Bool.or_eq_false_iff, beq_eq_false_iff_ne] at hg
        obtain ⟨⟨⟨hquote, hback⟩, hfeed⟩, hreturn⟩ := hg
        refine ⟨.piece (.plain c ⟨hback, hfeed, hreturn⟩), rfl, List.append_nil _, fun hsame => ?_, nofun⟩
        exact hquote (Glyph.char.inj (List.cons.inj hsame).1)
    refine ⟨part :: parts, ?_, ?_, List.forall_mem_cons.mpr ⟨hplain, hparts⟩⟩
    · rw [List.flatMap_cons, hpart, hwritten, List.singleton_append]
    · rw [List.flatMap_cons, hself, hunits, List.flatMap_cons]

/-- Between quotes a text is a literal for itself exactly if nothing in it needs an escape. -/
theorem denotes_within_iff (quote : Char) (t : Text) :
    Denotes quote (within quote t) t ↔ ∀ g ∈ t, g.satisfies (needsEscape quote) = false := by
  constructor
  · rintro ⟨parts, hwritten, hbare, -, hunits⟩
    have hparts : t = parts.flatMap Part.written :=
      List.append_cancel_right (List.cons.inj hwritten).2
    subst hparts
    have hverbatim := verbatim_of_length (congrArg List.length hunits)
    intro g hg
    obtain ⟨part, hpart, hg⟩ := List.mem_flatMap.mp hg
    have hone := hverbatim part hpart
    have hquote := hbare part hpart
    cases part with
    | half n =>
      obtain rfl := List.mem_singleton.mp hg
      rfl
    | piece p =>
      obtain ⟨c, hc, rfl⟩ := hone
      obtain rfl := List.mem_singleton.mp hg
      have hne : c ≠ quote := by
        rintro rfl
        exact hquote rfl
      simp [Glyph.satisfies, needsEscape, hne, hc]
  · intro h
    obtain ⟨parts, rfl, hunits, hparts⟩ := exists_parts h
    refine ⟨parts, rfl, fun part hpart => (hparts part hpart).1, ?_, hunits⟩
    exact (List.pairwise_iff_forall_sublist.mpr fun hpair hzero =>
      absurd hzero (hparts _ (hpair.subset List.mem_cons_self)).2).isChain

/-- What begins with a character that begins no escape begins with that piece. -/
theorem plain_of_head {rest : Text} (hc : c ≠ '\\') (h : parts.flatMap Part.written = .char c :: rest) :
    ∃ hplain parts', parts = .piece (.plain c hplain) :: parts' ∧ parts'.flatMap Part.written = rest := by
  cases parts with
  | nil => cases h
  | cons part parts =>
    rw [List.flatMap_cons] at h
    cases part with
    | half n => cases (List.cons.inj h).1
    | piece p =>
      cases p with
      | plain d hplain =>
        obtain ⟨hsame, hrest⟩ := List.cons.inj h
        obtain rfl := Glyph.char.inj hsame
        exact ⟨hplain, parts, rfl, hrest⟩
      | _ => exact absurd (Glyph.char.inj (List.cons.inj h).1).symm hc

/-- A character whose code units come first is known by them, if it takes one. -/
theorem eq_of_unitsOf {c d : Char} {us vs : List Nat} (hd : d.toNat < 0xD800)
    (h : unitsOf c.toNat ++ us = d.toNat :: vs) : c = d ∧ us = vs := by
  unfold unitsOf at h
  split at h
  · exact ⟨Char.toNat_inj.mp (List.cons.inj h).1, (List.cons.inj h).2⟩
  · have hhigh := (List.cons.inj h).1
    omega

theorem intercalate_cons_append (separator s : String) (rest : List String) :
    ∃ behind, separator.intercalate (s :: rest) = s ++ behind := by
  cases rest with
  | nil => exact ⟨"", by rw [String.intercalate_singleton, String.append_empty]⟩
  | cons s' rest => exact ⟨_, by rw [String.intercalate_cons_cons, String.append_assoc]⟩

/-- A list is shown with its first item between quotes. -/
theorem shown_ofStrings_cons (s : String) (rest : List String) : ∃ more,
    (Value.ofStrings (s :: rest)).shown.toList =
      '[' :: (if s.contains '\'' && !s.contains '"' then '"' else '\'') :: more := by
  obtain ⟨behind, hitems⟩ := intercalate_cons_append ", " (Shown.quoted s) (Value.shownItems (rest.map .text))
  unfold Value.ofStrings
  rw [List.map_cons, Value.shown, Value.shownItems, Value.shown, hitems, Shown.quoted]
  simp only [String.toList_append, Char.toString, String.toList_singleton, List.append_assoc, List.singleton_append]
  exact ⟨_, rfl⟩

/-- A text with a single quote in it and no double one does not begin with a bracket and a double quote. -/
theorem units_ne_bracket {s : String} (hsingle : '\'' ∈ s.toList) (hdouble : '"' ∉ s.toList) (behind : String)
    (us : List Nat) : (Text.ofString (s ++ behind)).flatMap unitsIn ≠ '['.toNat :: '"'.toNat :: us := by
  intro hunits
  unfold Text.ofString at hunits
  rw [String.toList_append] at hunits
  cases hs : s.toList with
  | nil =>
    rw [hs] at hsingle
    cases hsingle
  | cons c cs =>
    rw [hs] at hsingle hdouble hunits
    obtain ⟨rfl, hbehind⟩ := eq_of_unitsOf (by decide) hunits
    cases cs with
    | nil => exact absurd (List.mem_singleton.mp hsingle) (by decide)
    | cons d cs =>
      obtain ⟨rfl, -⟩ := eq_of_unitsOf (by decide) hbehind
      exact hdouble (List.mem_cons_of_mem _ List.mem_cons_self)

/-- The bracket and the quote that a list is shown with are not what its items begin with. -/
theorem not_denotes_list (items : List String) : ¬ Denotes '\''
    (within '\'' (.ofString (Value.ofStrings items).shown)) (.ofString (" ".intercalate items)) := by
  rintro ⟨parts, hwritten, hbare, -, hunits⟩
  have hinside : parts.flatMap Part.written = Text.ofString (Value.ofStrings items).shown :=
    (List.append_cancel_right (List.cons.inj hwritten).2).symm
  cases items with
  | nil =>
    obtain ⟨_, _, rfl, _⟩ := plain_of_head (by decide) hinside
    cases hunits
  | cons s rest =>
    obtain ⟨more, hshown⟩ := shown_ofStrings_cons s rest
    unfold Text.ofString at hinside
    rw [hshown] at hinside
    obtain ⟨_, parts, rfl, hbehind⟩ := plain_of_head (by decide) hinside
    by_cases hquotes : (s.contains '\'' && !s.contains '"') = true
    · rw [if_pos hquotes] at hbehind
      obtain ⟨_, parts, rfl, _⟩ := plain_of_head (by decide) hbehind
      obtain ⟨behind, hitems⟩ := intercalate_cons_append " " s rest
      rw [Bool.and_eq_true, Bool.not_eq_true', String.contains_char_eq, String.contains_char_eq, decide_eq_true_eq,
        decide_eq_false_iff_not] at hquotes
      rw [hitems] at hunits
      exact units_ne_bracket hquotes.1 hquotes.2 behind _ hunits.symm
    · rw [if_neg hquotes] at hbehind
      obtain ⟨_, parts, rfl, _⟩ := plain_of_head (by decide) hbehind
      exact hbare _ (List.mem_cons_of_mem _ List.mem_cons_self) rfl

end Quoted

/-! ## What is proposed -/

open Quoted (within Denotes needsEscape)

namespace Guidance

/-- What a query is computed from: a text, or an attribute with several values. -/
inductive Origin where
  | text (t : Text)
  | list (items : List String)

namespace Origin

/-- The text that the query asks for. -/
def value : Origin → Text
  | text t => t
  | list items => .ofString (" ".intercalate items)

/-- What the query has between its quotes. -/
def pasted : Origin → Text
  | text t => t
  | list items => .ofString (Value.ofStrings items).shown

/-- One text in which nothing needs an escape. -/
def Clean : Origin → Prop
  | text t => ∀ g ∈ t, g.satisfies (needsEscape '\'') = false
  | list _ => False

/-- What an attribute gives; nothing if it is empty. -/
def ofAttribute? : AttributeValue → Option Origin
  | .single s => if s = "" then none else some (text (.ofString s))
  | .several items => if items = [] then none else some (list items)

theorem denotes_iff_clean (o : Origin) : Denotes '\'' (within '\'' o.pasted) o.value ↔ o.Clean := by
  cases o with
  | text t => exact Quoted.denotes_within_iff '\'' t
  | list items => exact iff_of_false (Quoted.not_denotes_list items) id

end Origin

/-- The query for an element: by its test id, else by its role, else by its text. -/
inductive Finds (attr : String) (e : Spot) : String → Origin → Prop
  | testId {o : Origin} (h : (e.attribute? attr).bind Origin.ofAttribute? = some o) : Finds attr e "getByTestId" o
  | statedRole {o : Origin} (hid : (e.attribute? attr).bind Origin.ofAttribute? = none)
    (h : (e.attribute? "role").bind Origin.ofAttribute? = some o) : Finds attr e "getByRole" o
  | tagRole {role : String} (hid : (e.attribute? attr).bind Origin.ofAttribute? = none)
    (hstated : (e.attribute? "role").bind Origin.ofAttribute? = none) (h : Snapshot.roleOf? e = some role) :
    Finds attr e "getByRole" (.text (.ofString role))
  | text (hid : (e.attribute? attr).bind Origin.ofAttribute? = none) (hrole : Snapshot.roleOf? e = none)
    (h : e.text ≠ "") : Finds attr e "getByText" (.text (.ofString e.text))

/-- The query for a selector: by the test id that it asks for, else for the first element of the page that it
matches, else by the first role whose name is in it. -/
inductive Proposes (selector : Text) (attr : String) (snapshot : Option Snapshot) : String → Origin → Prop
  | testId {value : Text} (h : Selector.testIdOf? attr selector = some value) :
    Proposes selector attr snapshot "getByTestId" (.text value)
  | element {page : Snapshot} {e : Spot} {rest : List Spot} {query : String} {o : Origin}
    (hid : Selector.testIdOf? attr selector = none) (hpage : snapshot = some page)
    (hselect : page.select selector.shown = .ok (e :: rest)) (h : Finds attr e query o) :
    Proposes selector attr snapshot query o
  | role {role : String} (hid : Selector.testIdOf? attr selector = none)
    (hpage : ∀ page, snapshot = some page → ∃ es, page.select selector.shown = .ok es ∧
      ∀ e ∈ es.head?, ∀ query o, ¬ Finds attr e query o)
    (h : (roles.find? fun (role : String) => selector.contains (Text.ofString role)) = some role) :
    Proposes selector attr snapshot "getByRole" (.text (.ofString role))

/-- The call of a query. -/
def call (query : String) (o : Origin) : Text :=
  .ofString ("screen." ++ query ++ "(") ++ within '\'' o.pasted ++ .ofString ")"

variable {selector t : Text} {attr : String} {snapshot : Option Snapshot}

/-- An attribute counts as given exactly if it gives something, which is pasted as the attribute is shown. -/
theorem isGiven_iff (v : Option AttributeValue) :
    (v.filter Snapshot.isGiven = none ∧ v.bind Origin.ofAttribute? = none) ∨
    ∃ given o, v.filter Snapshot.isGiven = some given ∧ v.bind Origin.ofAttribute? = some o ∧
      Text.ofString (Snapshot.shown given) = o.pasted := by
  rcases v with _ | ⟨s⟩ | ⟨items⟩
  · exact .inl ⟨rfl, rfl⟩
  · by_cases hs : s = ""
    · exact .inl (by subst hs; exact ⟨rfl, rfl⟩)
    · exact .inr ⟨.single s, .text (.ofString s), if_pos (bne_iff_ne.mpr hs), if_neg hs, rfl⟩
  · by_cases hitems : items = []
    · exact .inl (by subst hitems; exact ⟨rfl, rfl⟩)
    · exact .inr ⟨.several items, .list items, if_pos (by simp [Snapshot.isGiven, hitems]), if_neg hitems, rfl⟩

theorem ofString_call (query : String) {s : String} {o : Origin} (h : Text.ofString s = o.pasted) :
    Text.ofString ("screen." ++ query ++ "('" ++ s ++ "')") = call query o := by
  unfold call within
  rw [← h]
  simp only [Text.ofString_append, List.append_assoc]
  rfl

variable {e : Spot}

/-- A role that is stated is that of the element. -/
theorem roleOf?_of_stated {o : Origin} (h : (e.attribute? "role").bind Origin.ofAttribute? = some o) :
    ∃ role, Snapshot.roleOf? e = some role ∧ Text.ofString role = o.pasted := by
  unfold Snapshot.roleOf?
  rcases isGiven_iff (e.attribute? "role") with ⟨-, hnone⟩ | ⟨given, o', hgiven, hsome, hshown⟩
  · cases hnone.symm.trans h
  · obtain rfl := Option.some.inj (hsome.symm.trans h)
    rw [hgiven]
    exact ⟨_, rfl, hshown⟩

/-- The query for an element is made of what is found, and there is one if something is. -/
theorem queryFor?_finds (attr : String) (e : Spot) :
    match Snapshot.queryFor? attr e with
    | some s => ∃ query o, Finds attr e query o ∧ Text.ofString s = call query o
    | none => ∀ query o, ¬ Finds attr e query o := by
  unfold Snapshot.queryFor?
  rcases isGiven_iff (e.attribute? attr) with ⟨hnone, hid⟩ | ⟨given, o, hgiven, hid, hshown⟩
  · rw [hnone]
    dsimp only
    cases hstated : (e.attribute? "role").bind Origin.ofAttribute? with
    | some o =>
      obtain ⟨role, hrole, hpasted⟩ := roleOf?_of_stated hstated
      rw [hrole]
      exact ⟨_, o, .statedRole hid hstated, ofString_call "getByRole" hpasted⟩
    | none =>
      cases hrole : Snapshot.roleOf? e with
      | some role => exact ⟨_, _, .tagRole hid hstated hrole, ofString_call "getByRole" rfl⟩
      | none =>
        dsimp only
        by_cases htext : e.text = ""
        · rw [if_pos (beq_iff_eq.mpr htext)]
          intro query o hfinds
          cases hfinds with
          | testId h => cases hid.symm.trans h
          | statedRole _ h => cases hstated.symm.trans h
          | tagRole _ _ h => cases hrole.symm.trans h
          | text _ _ h => exact h htext
        · rw [if_neg (mt beq_iff_eq.mp htext)]
          exact ⟨_, _, .text hid hrole htext, ofString_call "getByText" rfl⟩
  · rw [hgiven]
    exact ⟨_, o, .testId hid, ofString_call "getByTestId" hshown⟩

/-- Where neither a test id nor the page helps, a role is looked for. -/
theorem bySuggestion_none (hid : Selector.testIdOf? attr selector = none)
    (hpage : ∀ page, snapshot = some page → ∃ es, page.select selector.shown = .ok es ∧
      ∀ e ∈ es.head?, ∀ query o, ¬ Finds attr e query o) :
    (bySuggestion selector none = .ofString anySelector ∧ ∀ query o, ¬ Proposes selector attr snapshot query o) ∨
    ∃ query o, Proposes selector attr snapshot query o ∧ bySuggestion selector none = call query o := by
  unfold bySuggestion
  cases hrole : roles.find? fun (role : String) => selector.contains (Text.ofString role) with
  | some role => exact .inr ⟨_, _, .role hid hpage hrole, ofString_call "getByRole" rfl⟩
  | none =>
    refine .inl ⟨rfl, fun query o hproposes => ?_⟩
    cases hproposes with
    | testId h => cases hid.symm.trans h
    | element _ hsome hselect h =>
      obtain ⟨es, hes, hnone⟩ := hpage _ hsome
      obtain rfl := Except.ok.inj (hes.symm.trans hselect)
      exact hnone _ rfl _ _ h
    | role _ _ h => cases hrole.symm.trans h

theorem proposed_of_ofSelector (h : ofSelector selector attr snapshot = .ok t) :
    (t = .ofString anySelector ∧ ∀ query o, ¬ Proposes selector attr snapshot query o) ∨
    ∃ query o, Proposes selector attr snapshot query o ∧ t = call query o := by
  unfold ofSelector at h
  cases hid : Selector.testIdOf? attr selector with
  | some value =>
    rw [hid] at h
    refine .inr ⟨_, _, .testId hid, (Except.ok.inj h).symm.trans ?_⟩
    unfold call within
    simp only [List.append_assoc]
    rfl
  | none =>
    rw [hid] at h
    dsimp only at h
    cases snapshot with
    | none =>
      cases h
      exact bySuggestion_none hid nofun
    | some page =>
      dsimp only at h
      unfold Snapshot.suggest? at h
      cases hselect : page.select selector.shown with
      | error e =>
        rw [hselect] at h
        cases h
      | ok es =>
        rw [hselect] at h
        have hadvice : bySuggestion selector (es.head?.bind (Snapshot.queryFor? attr)) = t := Except.ok.inj h
        subst hadvice
        cases es with
        | nil =>
          exact bySuggestion_none hid fun _ hpage => ⟨[], Option.some.inj hpage ▸ hselect, nofun⟩
        | cons e rest =>
          have hfinds := queryFor?_finds attr e
          rw [List.head?_cons, Option.bind_some]
          split at hfinds
          · rename_i s hquery
            obtain ⟨query, o, hfinds, hcall⟩ := hfinds
            rw [hquery]
            exact .inr ⟨query, o, .element hid rfl hselect hfinds, hcall⟩
          · rename_i hquery
            rw [hquery]
            refine bySuggestion_none hid fun _ hpage => ⟨e :: rest, Option.some.inj hpage ▸ hselect, ?_⟩
            rintro _ ⟨⟩
            exact hfinds

/-- What is written for a selector is a query that is proposed for it, and what the query has between its quotes
is a literal for what it asks for exactly if that is one text in which nothing needs an escape. Where no query is
proposed, there is general advice. -/
theorem literal_iff_of_ofSelector (h : ofSelector selector attr snapshot = .ok t) :
    (t = .ofString anySelector ∧ ∀ query o, ¬ Proposes selector attr snapshot query o) ∨
    ∃ query o, Proposes selector attr snapshot query o ∧ t = call query o ∧
      (Denotes '\'' (within '\'' o.pasted) o.value ↔ o.Clean) := by
  refine (proposed_of_ofSelector h).imp_right ?_
  rintro ⟨query, o, hproposes, hcall⟩
  exact ⟨query, o, hproposes, hcall, o.denotes_iff_clean⟩

/-- A page with an element whose text has double quotes, a reference and an end of line in it. -/
def notePage : Snapshot := Snapshot.ofMarkup "<p><b>say\n \"hi\" &amp; go</b></p>"

/-- Its text is a literal for itself. -/
theorem literal_iff_of_ofSelector_quotes :
    ofSelector "p > b" "data-testid" (some notePage) = .ok (.ofString "screen.getByText('say \"hi\" & go')") ∧
    (∃ query o, Proposes "p > b" "data-testid" (some notePage) query o ∧
      Text.ofString "screen.getByText('say \"hi\" & go')" = call query o ∧
      (Denotes '\'' (within '\'' o.pasted) o.value ↔ o.Clean)) ∧
    Denotes '\'' (.ofString "'say \"hi\" & go'") (.ofString "say \"hi\" & go") := by
  obtain ⟨t, hanswer, htext⟩ := exists_of_toOption_map (f := id)
    (x := ofSelector "p > b" "data-testid" (some notePage)) (b := .ofString "screen.getByText('say \"hi\" & go')") (by decide +kernel)
  obtain rfl : t = .ofString "screen.getByText('say \"hi\" & go')" := htext
  refine ⟨hanswer, ?_, (Quoted.denotes_within_iff '\'' (.ofString "say \"hi\" & go")).mpr (by decide +kernel)⟩
  exact (literal_iff_of_ofSelector hanswer).resolve_left fun h => absurd h.1 (by decide +kernel)

/-- An apostrophe in the text of an element ends the literal. -/
theorem apostrophe_ends_literal :
    ofSelector "p" "data-testid" (some (Snapshot.ofMarkup "<p>it's</p>")) = .ok (.ofString "screen.getByText('it's')") ∧
    Proposes "p" "data-testid" (some (Snapshot.ofMarkup "<p>it's</p>")) "getByText" (.text (.ofString "it's")) ∧
    call "getByText" (.text (.ofString "it's")) = .ofString "screen.getByText('it's')" ∧
    ¬ Denotes '\'' (.ofString "'it's'") (.ofString "it's") := by
  have hchecks : ((Snapshot.ofMarkup "<p>it's</p>").select (Text.shown "p")).toOption.map (fun es =>
      es.map fun e => (e.text, e.attribute? "data-testid", e.attribute? "role", Snapshot.roleOf? e)) =
      some [("it's", none, none, none)] := by
    decide +kernel
  obtain ⟨es, hselect, hobserved⟩ := exists_of_toOption_map hchecks
  obtain ⟨e, rfl, hone⟩ := List.map_eq_singleton_iff.mp hobserved
  simp only [Prod.mk.injEq] at hone
  obtain ⟨htext, hid, hstated, hrole⟩ := hone
  obtain ⟨t, hanswer, hcall⟩ := exists_of_toOption_map (f := id) (x := ofSelector "p" "data-testid"
    (some (Snapshot.ofMarkup "<p>it's</p>"))) (b := .ofString "screen.getByText('it's')") (by decide +kernel)
  obtain rfl : t = .ofString "screen.getByText('it's')" := hcall
  refine ⟨hanswer, .element (by decide +kernel) rfl hselect ?_, by decide +kernel, ?_⟩
  · rw [← htext]
    exact .text (by rw [hid]; rfl) hrole (by rw [htext]; decide)
  · exact mt (Quoted.denotes_within_iff '\'' (.ofString "it's")).mp (by decide +kernel)

end Guidance

end TestMigration
