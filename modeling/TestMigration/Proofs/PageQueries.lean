import TestMigration.Proofs.Outline

/-! The query that stands for a call at a place of the tree. Where the literals of a script have values
that can be written out, every `find` call has a selector, and the query for it is a text that can be
written out as well. -/

namespace TestMigration

open Script (Node Kind Field Place Form)

/-! ## Texts that can be written out -/

namespace Text

/-- The text holds no lone surrogate. -/
def Whole (t : Text) : Prop := ∀ g ∈ t, (Glyph.toChar? g).isSome = true

variable {t u : Text} {s : String}

theorem Whole.of_subset (h : t.Whole) (hu : u ⊆ t) : u.Whole := fun g hg => h g (hu hg)

theorem whole_ofString : (ofString s).Whole := by
  intro g hg
  obtain ⟨c, -, rfl⟩ := List.mem_map.mp hg
  rfl

theorem Whole.append (ht : t.Whole) (hu : u.Whole) : (t ++ u).Whole :=
  fun g hg => (List.mem_append.mp hg).elim (ht g) (hu g)

theorem whole_cons {c : Char} : Whole (.char c :: t) ↔ t.Whole :=
  ⟨fun h g hg => h g (List.mem_cons_of_mem _ hg), fun h => List.forall_mem_cons.mpr ⟨rfl, h⟩⟩

theorem shown_ofString (s : String) : (ofString s).shown = s := by
  unfold ofString shown
  rw [List.map_map, ← String.toList_inj, String.toList_ofList]
  exact List.map_id _

/-- Such a text is what is shown of it. -/
theorem Whole.ofString_shown (h : t.Whole) : ofString t.shown = t := by
  unfold ofString shown
  rw [String.toList_ofList, List.map_map]
  refine (List.map_congr_left fun g hg => ?_).trans (List.map_id t)
  cases g with
  | char c => rfl
  | lone n => cases h _ hg

theorem Whole.encode (h : t.Whole) : (Quoted.encode t).Whole := by
  unfold Quoted.encode
  refine Whole.append (whole_cons.mpr ?_) (whole_cons.mpr (List.forall_mem_nil _))
  intro g hg
  obtain ⟨g', hg', hescaped⟩ := List.mem_flatMap.mp hg
  cases g' with
  | char c =>
    obtain ⟨c', -, rfl⟩ := List.mem_map.mp hescaped
    rfl
  | lone n => cases h _ hg'

end Text

namespace Selector

variable {attr value selector : Text}

theorem subset_of_quotes {behind text : Text} (h : Quotes value behind text) : value ⊆ text := by
  cases h with
  | mk => exact fun g hg => List.mem_cons_of_mem _ (List.mem_append_left _ hg)

theorem testIdOf?_subset (h : testIdOf? attr selector = some value) : value ⊆ selector := by
  obtain ⟨front, found, rfl, hsets⟩ := testIdOf?_some h
  cases hsets with
  | mk _ _ hquotes =>
    intro g hg
    refine List.mem_append_right _ (List.mem_append_right _ (List.mem_append_right _ ?_))
    exact List.mem_cons_of_mem _ (List.mem_append_right _ (subset_of_quotes hquotes hg))

theorem roleOf?_subset (h : roleOf? selector = some value) : value ⊆ selector := by
  unfold roleOf? at h
  dsimp only at h
  split at h
  · cases h
  split at h
  · rename_i hquoted
    cases h
    refine List.Subset.trans (subset_of_quotes (quotedValue?_iff.mp hquoted))
      (List.Subset.trans (List.drop_subset _ _) ?_)
    intro g hg
    have hback := (List.dropWhile_sublist _).subset (List.mem_reverse.mp hg)
    exact (List.dropWhile_sublist _).subset (List.mem_reverse.mp hback)
  · cases h

/-- What is selected by can be written out. -/
def Whole : Selector → Prop
  | testId value | role value => value.Whole
  | other => True

theorem whole_ofText (h : selector.Whole) : (ofText attr selector).Whole := by
  unfold ofText
  split
  · rename_i htestId
    exact h.of_subset (testIdOf?_subset htestId)
  · split
    · rename_i hrole
      exact h.of_subset (roleOf?_subset hrole)
    · trivial

/-! ## Queries -/

/-- A query of the page. -/
structure Query where
  method : String
  value : Text

namespace Query

def text (q : Query) : Text := callText ("screen." ++ q.method : String) [Quoted.encode q.value]

def written (q : Query) : String := q.text.shown

/-- The tree of the query. -/
def form (q : Query) (role : Option Field) : Form :=
  .mk role .callExpression "" [
    .mk (some .callee) .memberExpression "" [
      .mk (some .object) .identifier "screen" [], .mk (some .property) .propertyIdentifier q.method []],
    .mk (some .arguments) .arguments "" [.mk none .string (Quoted.encode q.value).shown []]]

theorem ofString_written {q : Query} (h : q.value.Whole) : Text.ofString q.written = q.text := by
  refine Text.Whole.ofString_shown ?_
  unfold text callText
  refine Text.Whole.append (Text.Whole.append Text.whole_ofString (Text.whole_cons.mpr ?_))
    (Text.whole_cons.mpr (List.forall_mem_nil _))
  simpa [Text.join, List.intercalate] using h.encode

end Query

/-- The query for a selector. For a test id it is one that does not throw if the call is denied. -/
def query (denied : Bool) : Selector → Option Query
  | testId value => some ⟨if denied then "queryByTestId" else "getByTestId", value⟩
  | role value => some ⟨"getByRole", value⟩
  | other => none

variable {d : Document} {p : Place}

/-- Whether a call is denied can always be told. -/
theorem isDenied_answers (hd : d.Legible) (hp : p.Within d.root) : ∃ b, isDenied (d.handle p) d = .ok b := by
  have hkind : ∀ (q : Place) (kind : Kind), hasKind (d.handle q) kind d = .ok (q.node.kind == kind) :=
    fun q kind => look_bind_eq Handle.kind_handle rfl
  refine answers_option Wrapper.parent?_handle ⟨false, rfl⟩ fun arguments harguments => ?_
  refine answers_test (hkind arguments .arguments) ⟨false, rfl⟩ ?_
  refine answers_option Wrapper.parent?_handle ⟨false, rfl⟩ fun expect hexpect => ?_
  have hwithin := (hp.parent? harguments).parent? hexpect
  refine answers_test (hkind expect .callExpression) ⟨false, rfl⟩ ?_
  refine answers_option (Handle.field?_handle _) ⟨false, rfl⟩ fun callee hcallee => ?_
  refine answers_bind (Handle.text_handle hd (hwithin.field? hcallee)) ?_
  cases d.wording callee.node != "expect" with
  | true => exact ⟨false, rfl⟩
  | false =>
  refine answers_option Wrapper.parent?_handle ⟨false, rfl⟩ fun member hmember => ?_
  refine answers_test (hkind member .memberExpression) ⟨false, rfl⟩ ?_
  refine answers_option (Handle.field?_handle _) ⟨false, rfl⟩ fun object _ => ?_
  refine answers_option (Handle.field?_handle _) ⟨false, rfl⟩ fun property hproperty => ?_
  exact answers_bind (Handle.text_handle hd ((hwithin.parent? hmember).field? hproperty)) ⟨_, rfl⟩

end Selector

namespace Document

variable {d : Document} {p q : Place} {attr : Text}

/-- Every literal has a value that can be written out. -/
def WellSpelt (d : Document) : Prop :=
  ∀ p ∈ d.places, p.node.kind = .string → ∃ value, d.valueOf? p.node = some value ∧ value.Whole

def isWellSpelt (d : Document) : Bool :=
  d.places.all fun p => p.node.kind != .string || (d.valueOf? p.node).any (·.all (Glyph.toChar? · |>.isSome))

theorem wellSpelt_of_isWellSpelt (h : d.isWellSpelt = true) : d.WellSpelt := by
  intro p hp hkind
  have hvalue := List.all_eq_true.mp h p hp
  rw [hkind] at hvalue
  obtain ⟨value, hvalue, hwhole⟩ := (Option.any_eq_true _ _).mp hvalue
  exact ⟨value, hvalue, List.all_eq_true.mp hwhole⟩

theorem literal?_wellSpelt (hspelt : d.WellSpelt) (hq : q.node.kind = .string → q ∈ d.places) :
    ∃ value, (d.outlineOf q.node).literal? = .ok value ∧ ∀ t ∈ value, t.Whole := by
  unfold Form.literal?
  rw [kind_outlineOf, word_outlineOf]
  by_cases hkind : q.node.kind = .string
  · obtain ⟨value, hvalue, hwhole⟩ := hspelt q (hq hkind) hkind
    have hstring : (q.node.kind == Kind.string) = true := beq_iff_eq.mpr hkind
    unfold valueOf? at hvalue
    rw [if_pos hstring] at hvalue
    rw [bne, hstring, if_neg (by decide), spelling, if_pos hstring]
    cases hdecode : Quoted.decode ((d.wording q.node).toList.drop 1).dropLast with
    | error e =>
      rw [hdecode] at hvalue
      cases hvalue
    | ok decoded =>
      rw [hdecode] at hvalue
      cases hvalue
      exact ⟨some value, rfl, fun t ht => Option.mem_some.mp ht ▸ hwhole⟩
  · exact ⟨none, if_pos (bne_iff_ne.mpr hkind), fun t ht => absurd ht (Option.not_mem_none t)⟩

theorem field?_wellSpelt (hspelt : d.WellSpelt) (hp : p ∈ d.places) (hstring : p.node.kind ≠ .string)
    (role : Field) {f : Form} (hf : (d.outlineOf p.node).field? role = some f) :
    ∃ value, f.literal? = .ok value ∧ ∀ t ∈ value, t.Whole := by
  rw [field?_outlineOf hstring] at hf
  obtain ⟨n, hn, rfl⟩ := Option.map_eq_some_iff.mp hf
  refine literal?_wellSpelt (q := p.child n) hspelt fun hkind => ?_
  exact field?_mem_places hp (Option.map_eq_some_iff.mpr ⟨n, hn, rfl⟩) (by rw [hkind]; rfl)

theorem objectValue_wellSpelt (attr : Text) (hspelt : d.WellSpelt) {ps : List Place}
    (hps : ∀ p ∈ ps, p ∈ d.places) :
    ∃ value, Form.objectValue attr (ps.map fun p => d.outlineOf p.node) = .ok value ∧
      ∀ t ∈ value, t.Whole := by
  induction ps with
  | nil => exact ⟨none, rfl, fun t ht => absurd ht (Option.not_mem_none t)⟩
  | cons p ps ih =>
    obtain ⟨hp, hrest⟩ := List.forall_mem_cons.mp hps
    rw [List.map_cons, Form.objectValue, kind_outlineOf]
    split
    · exact ih hrest
    · rename_i hpair
      have hstring : p.node.kind ≠ .string := by
        rw [show p.node.kind = .pair by simpa using hpair]
        decide
      split
      · exact ih hrest
      · rename_i key hkey
        obtain ⟨literal, hliteral, -⟩ := field?_wellSpelt hspelt hp hstring .key hkey
        rw [Form.name_of_literal? hliteral]
        change ∃ value, (if (literal.getD (Text.ofString key.word) == attr) = true then _ else _) = _ ∧ _
        split
        · cases hvalue : (d.outlineOf p.node).field? .value with
          | none => exact ⟨none, rfl, fun t ht => absurd ht (Option.not_mem_none t)⟩
          | some f => exact field?_wellSpelt hspelt hp hstring .value hvalue
        · exact ih hrest

/-- Every call has a selector. -/
theorem selector_wellSpelt (attr : Text) (hspelt : d.WellSpelt) (hp : p ∈ d.places)
    (hcall : p.node.kind = .callExpression) :
    ∃ selector, Form.selector attr (d.outlineOf p.node) = .ok selector ∧ selector.Whole := by
  unfold Form.selector
  rw [arguments_outlineOf (by rw [hcall]; decide), List.head?_map]
  cases hfirst : p.callArguments.head? with
  | none => exact ⟨.other, rfl, trivial⟩
  | some q =>
    have hq := argument_mem_places hp (List.mem_of_head? hfirst)
    rw [Option.map_some, Form.selectorOf, kind_outlineOf]
    split
    · rename_i hobject
      have hstring : q.node.kind ≠ .string := by
        rw [beq_iff_eq.mp hobject]
        decide
      obtain ⟨value, hvalue, hwhole⟩ :=
        objectValue_wellSpelt attr hspelt fun _ => namedChild_mem_places hq
      rw [namedParts_outlineOf hstring, hvalue]
      cases value with
      | none => exact ⟨.other, rfl, trivial⟩
      | some value =>
        refine ⟨_, rfl, ?_⟩
        split
        · trivial
        · exact hwhole value rfl
    · obtain ⟨value, hvalue, hwhole⟩ := literal?_wellSpelt hspelt fun _ => hq
      rw [hvalue]
      cases value with
      | none => exact ⟨.other, rfl, trivial⟩
      | some value => exact ⟨_, rfl, Selector.whole_ofText (hwhole value rfl)⟩

/-! ## The query at a place -/

/-- The call is the `x` of `expect(x).not`. -/
def isDenied (d : Document) (p : Place) : Bool := (Selector.isDenied (d.handle p) d).toOption.getD false

/-- What a call selects by. -/
def selectorAt (d : Document) (attr : Text) (p : Place) : Selector :=
  (Selector.classify attr (p.callArguments.head?.map d.handle) d).toOption.getD .other

/-- The query for a `find` call, if it selects by something that there is a query for. -/
def query? (d : Document) (attr : Text) (p : Place) : Option Selector.Query :=
  if d.callsMethod (.exactly "find") p then (d.selectorAt attr p).query (d.isDenied p) else none

theorem query?_handle (hd : d.Legible) (hkeyed : d.Keyed) (hspelt : d.WellSpelt) (hattr : Selector.Named attr)
    (hp : p ∈ d.places) (hfind : d.callsMethod (.exactly "find") p = true) :
    Selector.query? attr (d.handle p) d = .ok ((d.query? attr p).map fun q => Text.ofString q.written) := by
  have hcall : p.node.kind = .callExpression := beq_iff_eq.mp (Bool.and_eq_true_iff.mp hfind).1
  have hclassify := classify_outlineOf hd hkeyed hattr hp hcall
  obtain ⟨selector, hselector, hwhole⟩ := selector_wellSpelt attr hspelt hp hcall
  obtain ⟨denied, hdenied⟩ := Selector.isDenied_answers hd (within_of_mem_places hp)
  rw [hselector] at hclassify
  unfold query? selectorAt isDenied
  rw [if_pos hfind, hclassify, hdenied]
  refine look_bind_eq Handle.firstArgument?_handle (look_bind_eq hclassify ?_)
  cases selector with
  | testId value =>
    refine look_bind_eq hdenied ?_
    change _ = Except.ok (some (Text.ofString (Selector.Query.written _)))
    rw [Selector.Query.ofString_written (q := ⟨_, value⟩) hwhole]
    cases denied <;> rfl
  | role value =>
    change _ = Except.ok (some (Text.ofString (Selector.Query.written _)))
    rw [Selector.Query.ofString_written (q := ⟨_, value⟩) hwhole]
    rfl
  | other => rfl

end Document

end TestMigration
