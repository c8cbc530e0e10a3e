import TestMigration.Proofs.Holders

/-! Declarations without a value. When an assignment gives way to the call on its right side, its
variable is no longer set there; the resolver then takes away the declarators of the variable's name that
have no value, wherever they stand. -/

namespace TestMigration

open Script (Node Kind Field Place)

namespace Document

variable {d : Document}

/-- One of the assignments, with its sides, of which a test holds. -/
def GivesWay (d : Document) (holds : Place → Place → Bool) (p left right : Place) : Prop :=
  p ∈ d.assignments ∧ p.sides? = some (left, right) ∧ holds left right = true

/-- The declarators of a declaration without a value that have one of the names. -/
def doomed (d : Document) (names : List String) (p : Place) : List Place :=
  p.declarators.filter (d.isUninitialised names)

/-- The declarators of the declaration that stay. -/
def kept (d : Document) (names : List String) (p : Place) : List Place :=
  p.declarators.filter fun q => !(d.doomed names p).any fun r => (d.handle q).same (d.handle r)

/-- What a declaration is without the declarators of the names: nothing if it has no others. -/
structure Shortens (d : Document) (names : List String) (p : Place) (e : Edit) : Prop where
  some_doomed : d.doomed names p ≠ []
  all_doomed : (d.doomed names p).length = p.declarators.length → e.Puts (d.extent p).1 (d.extent p).2 ""
  some_kept : (d.doomed names p).length ≠ p.declarators.length →
    e.Puts p.node.start p.node.stop ((Blank.words (d.wording p.node)).headD "" ++ " " ++
      ", ".intercalate ((d.kept names p).map fun q => d.wording q.node) ++ ";")

/-- The names on the left sides of the assignments of which the test holds. -/
def givenUp (d : Document) (holds : Place → Place → Bool) : List String :=
  d.assignments.filterMap fun p =>
    (p.sides?.filter fun s => holds s.1 s.2).map fun s => d.wording s.1.node

variable {holds : Place → Place → Bool} {p left right : Place} {x : String}

theorem mem_givenUp : x ∈ d.givenUp holds ↔
    ∃ p left right, d.GivesWay holds p left right ∧ d.wording left.node = x := by
  simp only [givenUp, List.mem_filterMap, Option.map_eq_some_iff, Option.filter_eq_some_iff]
  constructor
  · rintro ⟨p, hp, ⟨left, right⟩, ⟨hsides, hholds⟩, rfl⟩
    exact ⟨p, left, right, ⟨hp, hsides, hholds⟩, rfl⟩
  · rintro ⟨p, left, right, ⟨hp, hsides, hholds⟩, rfl⟩
    exact ⟨p, hp, (left, right), ⟨hsides, hholds⟩, rfl⟩

theorem GivesWay.within (h : d.GivesWay holds p left right) :
    p.Within d.root ∧ left.Within d.root ∧ right.Within d.root := by
  have hp := within_found h.1
  exact ⟨hp, hp.sides? h.2.1⟩

/-- Which declarators go depends only on which names there are. -/
theorem doomed_congr {names names' : List String} (h : ∀ x, x ∈ names ↔ x ∈ names') :
    d.doomed names = d.doomed names' := by
  have hcontains : ∀ x, names.contains x = names'.contains x := by
    intro x
    rw [Bool.eq_iff_iff, List.contains_iff_mem, List.contains_iff_mem]
    exact h x
  unfold doomed isUninitialised
  simp only [hcontains]

theorem Shortens.congr {names names' : List String} {e : Edit} (h : ∀ x, x ∈ names ↔ x ∈ names')
    (hs : d.Shortens names p e) : d.Shortens names' p e := by
  obtain ⟨hsome, hall, hkept⟩ := hs
  unfold kept at hkept
  rw [doomed_congr h] at hsome hall hkept
  exact ⟨hsome, hall, hkept⟩

/-- The edits put the right sides of the assignments of which the test holds in their places, take the
declarators without a value of the names given up away, and do nothing else. -/
structure Clears (d : Document) (holds : Place → Place → Bool) (recorded : List Edit) : Prop where
  only : ∀ e ∈ recorded,
    (∃ p left right, d.GivesWay holds p left right ∧
      e.Puts p.node.start p.node.stop (d.wording right.node)) ∨
    ∃ p ∈ d.declarations, d.Shortens (d.givenUp holds) p e
  assignments : ∀ {p left right}, d.GivesWay holds p left right →
    ∃ e ∈ recorded, e.Puts p.node.start p.node.stop (d.wording right.node)
  declarations : ∀ p ∈ d.declarations, d.doomed (d.givenUp holds) p ≠ [] →
    ∃ e ∈ recorded, d.Shortens (d.givenUp holds) p e

end Document

namespace Wrapper

variable {d : Document} {b b' : Batch} {test : Handle → Handle → Looking Bool}
  {holds : Place → Place → Bool} {p : Place} {names : List String}

/-! ## Assignments -/

/-- The turn of an assignment: if the test holds of its sides, it gives way to the right one. -/
theorem records_collapseAssignment (hd : d.Legible) (ht : ∀ a b, Plain (test a b))
    (hreflects : d.Reflects test holds) (hp : p.Within d.root)
    (h : Records (collapseAssignment test (d.handle p)) d b names b') :
    (∃ left right, p.sides? = some (left, right) ∧ holds left right = true ∧
      names = [d.wording left.node] ∧
      (∃ e ∈ b'.edits, e.Puts p.node.start p.node.stop (d.wording right.node)) ∧
      ∀ e ∈ b'.edits, e ∈ b.edits ∨ e.Puts p.node.start p.node.stop (d.wording right.node)) ∨
    (∀ left right, p.sides? = some (left, right) → holds left right = false) ∧
      names = [] ∧ b' = b := by
  obtain ⟨left, hleft, h⟩ := h.look_bind ((d.handle p).plain_field? _)
  obtain ⟨right, hright, h⟩ := h.look_bind ((d.handle p).plain_field? _)
  rw [Handle.field?_handle] at hleft hright
  cases hleft
  cases hright
  unfold Place.sides?
  cases hl : p.field? .left with
  | none =>
    rw [hl] at h
    exact .inr ⟨by simp, h.pure⟩
  | some left =>
  cases hr : p.field? .right with
  | none =>
    rw [hl, hr] at h
    exact .inr ⟨by simp, h.pure⟩
  | some right =>
  rw [hl, hr] at h
  obtain ⟨passes, hpasses, h⟩ := h.look_bind (ht _ _)
  rw [hreflects left right (hp.field? hl) (hp.field? hr)] at hpasses
  cases hpasses
  cases hholds : holds left right with
  | false =>
    rw [hholds] at h
    exact .inr ⟨by simpa using hholds, h.pure⟩
  | true =>
    rw [hholds] at h
    obtain ⟨text, htext, h⟩ := h.look_bind (Handle.plain_text _)
    rw [Handle.text_handle hd (hp.field? hr)] at htext
    cases htext
    obtain ⟨u, b₁, hreplace, h⟩ := h.bind (Handle.made_replaceWith _ _)
    obtain ⟨name, hname, h⟩ := h.look_bind (Handle.plain_text _)
    rw [Handle.text_handle hd (hp.field? hl)] at hname
    cases hname
    obtain ⟨rfl, rfl⟩ := h.pure
    exact .inl ⟨left, right, rfl, hholds, rfl, records_replaceText hreplace⟩

theorem records_collapseAssignments (hd : d.Legible) (ht : ∀ a b, Plain (test a b))
    (hreflects : d.Reflects test holds) (fresh : b.edits = [])
    (h : Records (collapseAssignments test) d b names b') :
    (∀ x, x ∈ names ↔ x ∈ d.givenUp holds) ∧
    (∀ e ∈ b'.edits, ∃ p left right, d.GivesWay holds p left right ∧
      e.Puts p.node.start p.node.stop (d.wording right.node)) ∧
    ∀ {p left right}, d.GivesWay holds p left right →
      ∃ e ∈ b'.edits, e.Puts p.node.start p.node.stop (d.wording right.node) := by
  obtain ⟨all, hall, h⟩ := h.look_bind (plain_findAll (Pattern.quiet_ofKinds _))
  rw [Document.findAll_assignments hd] at hall
  cases hall
  have hmade := made_collapseAssignment ht
  obtain ⟨lists, b₁, hturns, h⟩ := h.bind (made_stepwise.mapM hmade _)
  obtain ⟨rfl, rfl⟩ := h.pure
  obtain ⟨hedits, hnames⟩ := hturns.mapM_keeps hmade
    (I := fun b => ∀ e ∈ b.edits, ∃ p left right, d.GivesWay holds p left right ∧
      e.Puts p.node.start p.node.stop (d.wording right.node))
    (Q := fun names => ∀ x ∈ names, ∃ p left right, d.GivesWay holds p left right ∧
      d.wording left.node = x) (by
    intro a ha b₁ c b₂ hb₁ hrun
    obtain ⟨p, hp, rfl⟩ := List.mem_map.mp ha
    rcases records_collapseAssignment hd ht hreflects (Document.within_found hp) hrun with
      ⟨left, right, hsides, hholds, rfl, -, honly⟩ | ⟨-, rfl, rfl⟩
    · refine ⟨fun e he => ?_, fun x hx => ?_⟩
      · rcases honly e he with hold | hnew
        · exact hb₁ e hold
        · exact ⟨p, left, right, ⟨hp, hsides, hholds⟩, hnew⟩
      · exact ⟨p, left, right, ⟨hp, hsides, hholds⟩, (List.mem_singleton.mp hx).symm⟩
    · exact ⟨hb₁, nofun⟩) (by
    intro e he
    rw [fresh] at he
    cases he)
  have hturn : ∀ {p left right}, d.GivesWay holds p left right →
      d.wording left.node ∈ lists.flatten ∧
        ∃ e ∈ b'.edits, e.Puts p.node.start p.node.stop (d.wording right.node) := by
    intro p left right hgives
    obtain ⟨hp, hsides, hholds⟩ := hgives
    obtain ⟨b₁, c, b₂, hrun, hc, hcontinues⟩ :=
      hturns.mapM_mem hmade (d.handle p) (List.mem_map_of_mem hp)
    rcases records_collapseAssignment hd ht hreflects (Document.within_found hp) hrun with
      ⟨left', right', hsides', -, rfl, ⟨e, he, hputs⟩, -⟩ | ⟨hnone, -, -⟩
    · rw [hsides] at hsides'
      cases hsides'
      exact ⟨List.mem_flatten.mpr ⟨_, hc, List.mem_singleton_self _⟩, e, hcontinues.mem he, hputs⟩
    · rw [hnone left right hsides] at hholds
      cases hholds
  refine ⟨fun x => ⟨fun hx => ?_, ?_⟩, hedits, fun hgives => (hturn hgives).2⟩
  · obtain ⟨c, hc, hxc⟩ := List.mem_flatten.mp hx
    exact Document.mem_givenUp.mpr (hnames c hc x hxc)
  · intro hx
    obtain ⟨p, left, right, hgives, rfl⟩ := Document.mem_givenUp.mp hx
    exact (hturn hgives).1

/-! ## Declarators -/

theorem doomed_handle (hd : d.Legible) (hp : p.Within d.root) :
    (p.declarators.map d.handle).filterM (isUninitialised names) d =
      .ok ((d.doomed names p).map d.handle) := by
  refine (filterM_eq (g := fun h : Handle => d.isUninitialised names h.place) ?_).trans ?_
  · intro a ha
    obtain ⟨q, hq, rfl⟩ := List.mem_map.mp ha
    exact isUninitialised_handle hd (hp.declarator hq) names
  · rw [List.filter_map]
    rfl

theorem kept_handle (d : Document) (names : List String) (p : Place) :
    ((p.declarators.map d.handle).filter fun h => !((d.doomed names p).map d.handle).any h.same) =
      (d.kept names p).map d.handle := by
  rw [List.filter_map]
  refine congrArg _ (List.filter_congr fun q _ => ?_)
  rw [Function.comp_apply, List.any_map]
  rfl

theorem texts_kept (hd : d.Legible) (hp : p.Within d.root) :
    ((d.kept names p).map d.handle).mapM Handle.text d =
      .ok (((d.kept names p).map d.handle).map fun h => d.wording h.place.node) := by
  refine mapM_eq fun a ha => ?_
  obtain ⟨q, hq, rfl⟩ := List.mem_map.mp ha
  exact Handle.text_handle hd (hp.declarator (List.mem_of_mem_filter hq))

/-- The turn of a declaration: it loses its declarators without a value that have one of the names. -/
theorem records_removeFrom (hd : d.Legible) (hp : p.Within d.root) {u : Unit}
    (h : Records (removeFrom names (d.handle p)) d b u b') :
    d.doomed names p ≠ [] ∧ (∃ e ∈ b'.edits, d.Shortens names p e) ∧
        (∀ e ∈ b'.edits, e ∈ b.edits ∨ d.Shortens names p e) ∨
      d.doomed names p = [] ∧ b' = b := by
  obtain ⟨all, hall, h⟩ := h.look_bind (plain_declarators _)
  rw [declarators_handle] at hall
  cases hall
  obtain ⟨doomed, hfound, h⟩ :=
    h.look_bind (plain_stepwise.filterM (plain_isUninitialised names) _)
  rw [doomed_handle hd hp] at hfound
  cases hfound
  dsimp only at h
  split at h
  · rename_i hnone
    rw [List.isEmpty_iff, List.map_eq_nil_iff] at hnone
    exact .inr ⟨hnone, h.pure.2⟩
  rename_i hsome
  rw [List.isEmpty_iff, List.map_eq_nil_iff] at hsome
  rw [List.length_map, List.length_map] at h
  refine .inl ⟨hsome, ?_⟩
  split at h
  · rename_i hall
    rw [beq_iff_eq] at hall
    have hshortens : ∀ e : Edit, e.Puts (d.extent p).1 (d.extent p).2 "" → d.Shortens names p e :=
      fun e he => ⟨hsome, fun _ => he, fun hnot => absurd hall hnot⟩
    obtain ⟨⟨e, he, hputs⟩, honly⟩ := records_remove h
    exact ⟨⟨e, he, hshortens e hputs⟩, fun e he => (honly e he).imp_right (hshortens e)⟩
  · rename_i hnot
    rw [beq_iff_eq] at hnot
    rw [kept_handle] at h
    obtain ⟨texts, htexts, h⟩ := h.look_bind (plain_stepwise.mapM Handle.plain_text _)
    rw [texts_kept hd hp] at htexts
    cases htexts
    obtain ⟨text, htext, h⟩ := h.look_bind (Handle.plain_text _)
    rw [Handle.text_handle hd hp] at htext
    cases htext
    rw [← Text.ofString_append, ← Text.ofString_append, ← Text.ofString_append, List.map_map,
      Function.comp_def] at h
    dsimp only [Document.handle] at h
    obtain ⟨⟨e, he, hputs⟩, honly⟩ := records_replaceText h
    have hshortens : ∀ e : Edit, e.Puts p.node.start p.node.stop
        ((Blank.words (d.wording p.node)).headD "" ++ " " ++
          ", ".intercalate ((d.kept names p).map fun q => d.wording q.node) ++ ";") →
        d.Shortens names p e :=
      fun e he => ⟨hsome, fun hall => absurd hall hnot, fun _ => he⟩
    exact ⟨⟨e, he, hshortens e hputs⟩, fun e he => (honly e he).imp_right (hshortens e)⟩

theorem records_removeUninitialised (hd : d.Legible) {u : Unit}
    (h : Records (removeUninitialised names) d b u b') :
    (∀ e ∈ b'.edits, e ∈ b.edits ∨ ∃ p ∈ d.declarations, d.Shortens names p e) ∧
      ∀ p ∈ d.declarations, d.doomed names p ≠ [] → ∃ e ∈ b'.edits, d.Shortens names p e := by
  obtain ⟨all, hall, h⟩ := h.look_bind (plain_findAll (Pattern.quiet_ofKinds _))
  rw [Document.findAll_declarations hd] at hall
  cases hall
  have hmade := made_removeFrom names
  constructor
  · refine h.forM_keeps hmade (I := fun b₁ => ∀ e ∈ b₁.edits,
      e ∈ b.edits ∨ ∃ p ∈ d.declarations, d.Shortens names p e) ?_ fun e he => .inl he
    intro a ha b₁ u b₂ hb₁ hrun
    obtain ⟨p, hp, rfl⟩ := List.mem_map.mp ha
    rcases records_removeFrom hd (Document.within_found hp) hrun with ⟨-, -, honly⟩ | ⟨-, rfl⟩
    · intro e he
      rcases honly e he with hold | hnew
      · exact hb₁ e hold
      · exact .inr ⟨p, hp, hnew⟩
    · exact hb₁
  · intro p hp hsome
    obtain ⟨b₁, b₂, hrun, hcontinues⟩ := h.forM_mem hmade (d.handle p) (List.mem_map_of_mem hp)
    rcases records_removeFrom hd (Document.within_found hp) hrun with ⟨-, ⟨e, he, hs⟩, -⟩ | ⟨hnone, -⟩
    · exact ⟨e, hcontinues.mem he, hs⟩
    · exact absurd hnone hsome

/-! ## The two blocks for assignments -/

/-- Names that stand for those given up may be removed in their place. -/
theorem clears_of_records (hd : d.Legible) (ht : ∀ a b, Plain (test a b))
    (hreflects : d.Reflects test holds) (fresh : b.edits = []) {found : List String} {b₁ : Batch}
    {u : Unit} (hfound : Records (collapseAssignments test) d b found b₁)
    (hnames : ∀ x, x ∈ names ↔ x ∈ found) (h : Records (removeUninitialised names) d b₁ u b') :
    d.Clears holds b'.edits := by
  obtain ⟨hmem, honly, heach⟩ := records_collapseAssignments hd ht hreflects fresh hfound
  obtain ⟨hremoved, hall⟩ := records_removeUninitialised hd h
  have hsame : ∀ x, x ∈ names ↔ x ∈ d.givenUp holds := fun x => (hnames x).trans (hmem x)
  have hcontinues := h.continues (made_removeUninitialised names)
  refine ⟨?_, ?_, ?_⟩
  · intro e he
    rcases hremoved e he with hold | ⟨p, hp, hs⟩
    · exact .inl (honly e hold)
    · exact .inr ⟨p, hp, hs.congr hsame⟩
  · intro p left right hgives
    obtain ⟨e, he, hputs⟩ := heach hgives
    exact ⟨e, hcontinues.mem he, hputs⟩
  · intro p hp hsome
    rw [← Document.doomed_congr hsame] at hsome
    obtain ⟨e, he, hs⟩ := hall p hp hsome
    exact ⟨e, he, hs.congr hsame⟩

/-- The block in which assignments of results give way. -/
def assignedResults (function : String) : Editing (List String) := do
  let names ← collapseAssignments (holdsResult function)
  removeUninitialised names
  return names

/-- The block in which assignments to the function's own name give way. -/
def assignedNamesakes (function : String) : Editing (List String) := do
  let names ← collapseAssignments (isAssigned function)
  if !names.isEmpty then removeUninitialised [function]
  return names

variable {function : String}

theorem resultsOf_blocks (function : String) : resultsOf function = (do
    let declared ← Document.batched (collapseDeclarations (holdsResult function) fun _ _ => return true)
    let assigned ← Document.batched (assignedResults function)
    return declared.1 ++ assigned.1) := rfl

theorem namesakesOf_blocks (function : String) : namesakesOf function = (do
    let declared ← Document.batched (collapseDeclarations (givesWay function) (isNamesake function))
    let assigned ← Document.batched (assignedNamesakes function)
    return declared.1 ++ assigned.1) := rfl

theorem made_assignedResults (function : String) : Made (assignedResults function) :=
  (made_collapseAssignments (plain_holdsResult function)).bind fun names =>
    (made_removeUninitialised names).bind fun _ => made_pure _

theorem made_assignedNamesakes (function : String) : Made (assignedNamesakes function) := by
  refine (made_collapseAssignments (plain_isAssigned function)).bind fun names => ?_
  split
  · exact (made_removeUninitialised _).bind fun _ => made_pure _
  · exact made_pure _

theorem clears_assignedResults (hd : d.Legible) (fresh : b.edits = [])
    (h : Records (assignedResults function) d b names b') :
    d.Clears (d.holdsResult function) b'.edits ∧ ∀ x, x ∈ names ↔ x ∈ d.givenUp (d.holdsResult function) := by
  have ht := plain_holdsResult function
  have hreflects := reflects_holdsResult hd function
  obtain ⟨found, b₁, hfound, h⟩ := h.bind (made_collapseAssignments ht)
  obtain ⟨u, b₂, hremoved, h⟩ := h.bind (made_removeUninitialised found)
  obtain ⟨rfl, rfl⟩ := h.pure
  exact ⟨clears_of_records hd ht hreflects fresh hfound (fun _ => Iff.rfl) hremoved,
    (records_collapseAssignments hd ht hreflects fresh hfound).1⟩

/-- All the assignments found are to the one name. -/
theorem clears_assignedNamesakes (hd : d.Legible) (fresh : b.edits = [])
    (h : Records (assignedNamesakes function) d b names b') :
    d.Clears (d.isAssigned function) b'.edits ∧ ∀ x, x ∈ names ↔ x ∈ d.givenUp (d.isAssigned function) := by
  have ht := plain_isAssigned function
  have hreflects := reflects_isAssigned hd function
  obtain ⟨found, b₁, hfound, h⟩ := h.bind (made_collapseAssignments ht)
  obtain ⟨hmem, honly, heach⟩ := records_collapseAssignments hd ht hreflects fresh hfound
  have hown : ∀ x ∈ found, x = function := by
    intro x hx
    obtain ⟨p, left, right, ⟨-, -, hassigned⟩, rfl⟩ := Document.mem_givenUp.mp ((hmem x).mp hx)
    exact beq_iff_eq.mp (Bool.and_eq_true_iff.mp hassigned).1
  cases found with
  | nil =>
    obtain ⟨rfl, rfl⟩ := h.pure
    refine ⟨⟨fun e he => .inl (honly e he), heach, fun p hp hsome => ?_⟩, hmem⟩
    have hnone : d.givenUp (d.isAssigned function) = [] :=
      List.eq_nil_iff_forall_not_mem.mpr fun x hx => List.not_mem_nil ((hmem x).mpr hx)
    refine absurd (List.filter_eq_nil_iff.mpr fun q _ => ?_) hsome
    rw [hnone, Document.isUninitialised]
    simp
  | cons first rest =>
    obtain ⟨u, b₂, hremoved, h⟩ := h.bind (made_removeUninitialised [function])
    obtain ⟨rfl, rfl⟩ := h.pure
    refine ⟨clears_of_records hd ht hreflects fresh hfound (fun x => ?_) hremoved, hmem⟩
    obtain rfl := hown first List.mem_cons_self
    exact ⟨fun hx => List.mem_singleton.mp hx ▸ List.mem_cons_self,
      fun hx => List.mem_singleton.mpr (hown x hx)⟩

end Wrapper

/-! ## What the blocks leave -/

namespace Document

variable {d : Document} {e : Edit}

theorem Worded.neat_of_clears {holds : Place → Place → Bool} {recorded : List Edit} (hd : d.Worded)
    (h : d.Clears holds recorded) (hinside : ∀ e ∈ recorded, e.start ≤ e.stop ∧ e.stop ≤ d.source.size) :
    ∀ e ∈ recorded, d.Neat e := by
  intro e he
  rcases h.only e he with ⟨p, left, right, hgives, hputs⟩ | ⟨p, hp, hs⟩
  · exact hd.neat_of_puts hgives.within.1 hputs
  · have hwithin := within_found hp
    by_cases hall : (d.doomed (d.givenUp holds) p).length = p.declarators.length
    · exact hd.neat_of_removes hwithin (hs.all_doomed hall) (hinside e he)
    · exact hd.neat_of_puts hwithin (hs.some_kept hall)

/-- The later text is the earlier one with edits made: assignments of which the test holds have given way,
and declarators of the names given up are gone. All of them are, but for those that begin inside a place
that an edit replaces. -/
structure Undeclares (before after : Document) (holds : Place → Place → Bool) (applied : List Edit) :
    Prop where
  text : after.source = Edit.splice before.source 0 applied
  fit : Edit.Fit before.source applied
  only : ∀ e ∈ applied,
    (∃ p left right, before.GivesWay holds p left right ∧
      e.Puts p.node.start p.node.stop (before.wording right.node)) ∨
    ∃ p ∈ before.declarations, before.Shortens (before.givenUp holds) p e
  assignments : ∀ {p left right}, before.GivesWay holds p left right →
    (∃ e ∈ applied, e.Puts p.node.start p.node.stop (before.wording right.node)) ∨
      ∃ e ∈ applied, e.start ≤ p.node.start ∧ p.node.start < e.stop
  declarations : ∀ p ∈ before.declarations, before.doomed (before.givenUp holds) p ≠ [] →
    ∃ e, before.Shortens (before.givenUp holds) p e ∧
      (e ∈ applied ∨ ∃ outer ∈ applied, outer.start ≤ e.start ∧ e.start < outer.stop)

end Document

namespace Wrapper

variable {d d' : Document} {function : String} {names : List String}

theorem undeclares_of_batched {holds : Place → Place → Bool} {body : Editing (List String)}
    (hb : Made body) (closed : d.batch = none) (hd : d.Worded)
    (hclears : ∀ b names, Records body d (.open' d.generation) names b → d.Clears holds b.edits)
    {spent : Batch} (h : Document.batched body d = .ok (names, spent) d') :
    d'.Worded ∧ ∃ applied, d.Undeclares d' holds applied := by
  obtain ⟨b, hrecords, hsource, -, -, -⟩ := batched_records hb closed h
  have hinside : ∀ b names, Records body d (.open' d.generation) names b →
      ∀ e ∈ b.edits, e.start ≤ e.stop ∧ e.stop ≤ d.source.size :=
    fun b names hr => hr.inside hb nofun
  have hcleared := hclears b names hrecords
  refine ⟨batched_worded hb closed hd h fun b hr =>
    hd.neat_of_clears (hclears b names hr) (hinside b names hr), b.settled.1, hsource,
    Batch.fit_settled (hinside b names hrecords), fun e he => hcleared.only e (Batch.mem_of_applied he),
    fun hgives => ?_, fun p hp hsome => ?_⟩
  · obtain ⟨e, he, hputs⟩ := hcleared.assignments hgives
    exact (Batch.applied_or_inside he hputs.1).imp_left fun happlied => ⟨e, happlied, hputs⟩
  · obtain ⟨e, he, hs⟩ := hcleared.declarations p hp hsome
    exact ⟨e, hs, Batch.applied_or_inside he rfl⟩

/-- Declarations that give way leave a script. -/
theorem collapseDeclarations_worded {test named : Handle → Handle → Looking Bool}
    (ht : ∀ a b, Plain (test a b)) (hn : ∀ a b, Plain (named a b)) (closed : d.batch = none)
    (hd : d.Worded) {spent : Batch}
    (h : Document.batched (collapseDeclarations test named) d = .ok (names, spent) d') : d'.Worded := by
  refine batched_worded (made_collapseDeclarations ht hn) closed hd h fun b hrecords e he => ?_
  obtain ⟨declaration, name, value, hdeclares, text, -, hputs⟩ :=
    (records_collapseDeclarations ht hn rfl hrecords).1 e he
  obtain ⟨all, hall, hmem⟩ := hdeclares.listed
  rw [Document.findAll_declarations hd.legible] at hall
  cases hall
  obtain ⟨p, hp, rfl⟩ := List.mem_map.mp hmem
  exact hd.neat_of_puts (Document.within_found hp) hputs

/-- The resolver's work in a script: declarations of which a test holds give way, and in the text that
this leaves assignments do, and with them declarators without a value. -/
structure Works (test : Handle → Handle → Looking Bool) (assigns : Document → Place → Place → Bool)
    (d before after : Document) (given applied : List Edit) : Prop where
  gives : GivesUp d test given
  text : before.source = Edit.splice d.source 0 given
  worded : before.Worded
  undeclares : before.Undeclares after (assigns before) applied
  leaves : after.Worded ∧ after.batch = none

variable {test named : Handle → Handle → Looking Bool} {assigns : Document → Place → Place → Bool}
  {body : Editing (List String)} {before after : Document}

theorem works_of_blocks (ht : ∀ a b, Plain (test a b)) (hn : ∀ a b, Plain (named a b)) (hb : Made body)
    (hclears : ∀ {d : Document}, d.Worded → ∀ b names,
      Records body d (.open' d.generation) names b → d.Clears (assigns d) b.edits)
    (closed : d.batch = none) (hd : d.Worded) {declared assigned : List String} {spent spent' : Batch}
    (hdeclared : Document.batched (collapseDeclarations test named) d = .ok (declared, spent) before)
    (hassigned : Document.batched body before = .ok (assigned, spent') after) :
    ∃ given applied, Works test assigns d before after given applied := by
  have hbefore := collapseDeclarations_worded ht hn closed hd hdeclared
  obtain ⟨-, -, -, hclosed, -, -⟩ := batched_records (made_collapseDeclarations ht hn) closed hdeclared
  obtain ⟨⟨given, htext, hgives⟩, -⟩ := collapseDeclarations_gives_up ht hn closed hdeclared
  obtain ⟨hafter, applied, hundeclares⟩ :=
    undeclares_of_batched hb hclosed hbefore (hclears hbefore) hassigned
  obtain ⟨-, -, -, hclosed', -, -⟩ := batched_records hb hclosed hassigned
  exact ⟨given, applied, hgives, htext, hbefore, hundeclares, hafter, hclosed'⟩

theorem resultsOf_works (closed : d.batch = none) (hd : d.Worded)
    (h : resultsOf function d = .ok names after) : ∃ before given applied,
      Works (holdsResult function) (·.holdsResult function) d before after given applied := by
  obtain ⟨⟨declared, spent⟩, before, hdeclared, h⟩ := Leaves.bind_ok h
  obtain ⟨⟨assigned, spent'⟩, after, hassigned, h⟩ := Leaves.bind_ok h
  obtain ⟨-, rfl⟩ := Leaves.pure h
  exact ⟨before, works_of_blocks (plain_holdsResult function) (fun _ _ => plain_pure _)
    (made_assignedResults function)
    (fun hd b names hr => (clears_assignedResults hd.legible rfl hr).1) closed hd hdeclared hassigned⟩

theorem namesakesOf_works (closed : d.batch = none) (hd : d.Worded)
    (h : namesakesOf function d = .ok names after) : ∃ before given applied,
      Works (givesWay function) (·.isAssigned function) d before after given applied := by
  obtain ⟨⟨declared, spent⟩, before, hdeclared, h⟩ := Leaves.bind_ok h
  obtain ⟨⟨assigned, spent'⟩, after, hassigned, h⟩ := Leaves.bind_ok h
  obtain ⟨-, rfl⟩ := Leaves.pure h
  exact ⟨before, works_of_blocks (plain_givesWay function) (plain_isNamesake function)
    (made_assignedNamesakes function)
    (fun hd b names hr => (clears_assignedNamesakes hd.legible rfl hr).1) closed hd hdeclared hassigned⟩

/-- A strategy that names no variable has met no result, and leaves the document alone. -/
theorem resultsOf_nil (closed : d.batch = none) (hd : d.Worded)
    (h : resultsOf function d = .ok [] after) : NoResults function d ∧ after = d := by
  have hall := h
  obtain ⟨⟨declared, spent⟩, before, hdeclared, h⟩ := Leaves.bind_ok h
  obtain ⟨⟨assigned, spent'⟩, after', hassigned, h⟩ := Leaves.bind_ok h
  obtain ⟨hnames, -⟩ := Leaves.pure h
  obtain ⟨rfl, rfl⟩ := List.append_eq_nil_iff.mp (Except.ok.inj hnames).symm
  have ht := plain_holdsResult function
  have hn : ∀ a b : Handle, Plain (pure true : Looking Bool) := fun _ _ => plain_pure _
  have hundeclared : ∀ declaration name value,
      ¬ Declares d (holdsResult function) declaration name value := by
    intro declaration name value hdeclares
    obtain ⟨n, -, hn⟩ := (collapseDeclarations_gives_up ht hn closed hdeclared).2 hdeclares rfl
    cases hn
  obtain ⟨b, hrecords, -, -, -, hidle⟩ :=
    batched_records (made_collapseDeclarations ht hn) closed hdeclared
  obtain ⟨-, hb⟩ := collapseDeclarations_idle ht hn hundeclared hrecords
  obtain rfl := hidle (by rw [hb]; rfl)
  obtain ⟨b', hrecords', -, -, -, -⟩ := batched_records (made_assignedResults function) closed hassigned
  have hgiven := (clears_assignedResults hd.legible rfl hrecords').2
  have hnone : NoResults function before := by
    refine ⟨hundeclared, (forall_assignments hd.legible (reflects_holdsResult hd.legible function)).mpr ?_⟩
    intro p hp s hs
    rw [← Bool.not_eq_true]
    intro hholds
    exact List.not_mem_nil ((hgiven _).mpr (Document.mem_givenUp.mpr ⟨p, s.1, s.2, ⟨hp, hs, hholds⟩, rfl⟩))
  exact ⟨hnone, (resultsOf_idle closed hnone hall).2⟩

/-- What a run leaves is left by the strategy for results or, where that names no variable, by the one for
variables of the function's own name. -/
theorem resolve_ends {s s' : Session} (h : resolve (some function) s = .ok names s') :
    ∃ direct met, resultsOf function s.document = .ok direct met ∧
      (direct ≠ [] ∧ s'.document = met ∨
        direct = [] ∧ ∃ own, namesakesOf function met = .ok own s'.document) := by
  have hreport : ∀ {found : List String} {t : Session}, Leaves (do
      if found.isEmpty then
        Pass.report .noWrapperBindings
          s!"No wrapper bindings found for render function '{function}'"
      return found.eraseDups : Pass (List String)) t (.ok names) s' → s'.document = t.document := by
    intro found t hr
    dsimp only at hr
    split at hr
    · obtain ⟨u, t', hreported, hr⟩ := hr.bind_ok
      obtain ⟨-, rfl⟩ := hr.pure
      cases hreported
      rfl
    · obtain ⟨-, rfl⟩ := hr.pure
      rfl
  obtain ⟨direct, t, hdirect, h⟩ := Leaves.bind_ok h
  obtain ⟨met, hrun, rfl⟩ := Pass.lift_ok hdirect
  refine ⟨direct, met, hrun, ?_⟩
  cases direct with
  | nil =>
    obtain ⟨own, t', hown, h⟩ := Leaves.bind_ok h
    obtain ⟨d₂, hrun', rfl⟩ := Pass.lift_ok hown
    rw [hreport h]
    exact .inr ⟨rfl, own, hrun'⟩
  | cons first rest => exact .inl ⟨List.cons_ne_nil _ _, @hreport (first :: rest) _ h⟩

/-- A run follows the results of the function or, where there are none, the variables of its own name. -/
theorem resolve_works {s s' : Session} (closed : s.document.batch = none) (hd : s.document.Worded)
    (h : resolve (some function) s = .ok names s') :
    (∃ before given applied, Works (holdsResult function) (·.holdsResult function) s.document before
      s'.document given applied) ∨
    NoResults function s.document ∧ ∃ before given applied,
      Works (givesWay function) (·.isAssigned function) s.document before s'.document given applied := by
  obtain ⟨direct, met, hdirect, hrest⟩ := resolve_ends h
  rcases hrest with ⟨-, hsame⟩ | ⟨rfl, own, hown⟩
  · rw [hsame]
    exact .inl (resultsOf_works closed hd hdirect)
  · obtain ⟨hnone, rfl⟩ := resultsOf_nil closed hd hdirect
    exact .inr ⟨hnone, namesakesOf_works closed hd hown⟩

end Wrapper

end TestMigration
