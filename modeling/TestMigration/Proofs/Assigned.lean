import TestMigration.Proofs.Renaming
import TestMigration.Proofs.Undeclared

/-! Variables that lose their declaration. A declarator without a value goes when an assignment to its
name gives way, wherever both stand and whatever else is done with the name. Of the other assignments to
it those that pass the test give way too, unless they begin inside a text that is replaced; those that do
not pass it stay, and set a variable that nothing declares. -/

namespace TestMigration

open Script (Node Kind Field Place)

namespace Document

/-- One of the assignments, with its sides, is to the plain name. -/
structure AssignsTo (d : Document) (x : String) (p left right : Place) : Prop where
  listed : p ∈ d.assignments
  sides : p.sides? = some (left, right)
  plain : left.node.kind = .identifier
  name : d.wording left.node = x

/-- One of the edits takes a declarator of the name away. -/
def Loses (d : Document) (names : List String) (applied : List Edit) (x : String) : Prop :=
  ∃ p ∈ d.declarations, (∃ e ∈ applied, d.Shortens names p e) ∧
    ∃ q ∈ d.doomed names p, (q.field? .name).map (fun name => d.wording name.node) = some x

/-- The edits do not put the right side in the place of the assignment, for they replace a text that it
stands in. -/
def Covered (d : Document) (applied : List Edit) (p right : Place) : Prop :=
  (∀ e ∈ applied, ¬ e.Puts p.node.start p.node.stop (d.wording right.node)) ∧
    ∃ e ∈ applied, e.start ≤ p.node.start ∧ p.node.start < e.stop

/-- The new text is read with no assignments to the name but those that no edit replaces, each of them
where the edits have moved it. -/
def KeepsAssignments (before after : Document) (applied : List Edit) (x : String) : Prop :=
  ∀ p left right, after.AssignsTo x p left right → ∃ q l r, before.AssignsTo x q l r ∧
    (∀ e ∈ applied, ¬ e.Puts q.node.start q.node.stop (before.wording r.node)) ∧
      left.node.start = Edit.offsetFrom 0 l.node.start applied

/-- The declarators of the name without a value. -/
def unset (d : Document) (x : String) : List Place := d.declarations.flatMap (d.doomed [x])

/-- The assignments to the plain name. -/
def assignmentsTo (d : Document) (x : String) : List Place :=
  d.assignments.filter fun p => p.sides?.any fun s =>
    s.1.node.kind == .identifier && d.wording s.1.node == x

variable {d before after : Document} {holds : Place → Place → Bool} {applied : List Edit} {x : String}
  {names : List String} {p q left right : Place}

theorem mem_of_doomed (hq : q ∈ d.doomed names p)
    (hname : (q.field? .name).map (fun name => d.wording name.node) = some x) : x ∈ names := by
  obtain ⟨name, hfield, rfl⟩ := Option.map_eq_some_iff.mp hname
  have huninitialised := (List.mem_filter.mp hq).2
  unfold isUninitialised at huninitialised
  rw [hfield, Option.any_some] at huninitialised
  exact List.contains_iff_mem.mp (Bool.and_eq_true_iff.mp huninitialised).2

theorem AssignsTo.within (h : d.AssignsTo x p left right) : left.Within d.root :=
  ((within_found h.listed).sides? h.sides).1

theorem assignsTo_of_mem (hp : p ∈ d.assignmentsTo x) : ∃ left right, d.AssignsTo x p left right := by
  obtain ⟨hlisted, hany⟩ := List.mem_filter.mp hp
  obtain ⟨⟨left, right⟩, hsides, hname⟩ := (Option.any_eq_true _ _).mp hany
  obtain ⟨hkind, htext⟩ := Bool.and_eq_true_iff.mp hname
  exact ⟨left, right, hlisted, hsides, beq_iff_eq.mp hkind, beq_iff_eq.mp htext⟩

/-- What becomes of the assignments to a name whose declarator goes. -/
structure Unassigns (before after : Document) (holds : Place → Place → Bool) (applied : List Edit)
    (x : String) : Prop where
  some_given : ∃ p left right, before.GivesWay holds p left right ∧ before.wording left.node = x
  replaced : ∀ {p left right}, before.AssignsTo x p left right → holds left right = true →
    (∃ e ∈ applied, e.Puts p.node.start p.node.stop (before.wording right.node)) ∨
      before.Covered applied p right
  stands : ∀ {p left right}, before.AssignsTo x p left right →
    (∀ e ∈ applied, e.stop ≤ left.node.start ∨ left.node.stop ≤ e.start) →
    Edit.Stands after.source x (Edit.offsetFrom 0 left.node.start applied)
  residue : before.KeepsAssignments after applied x → ∀ p left right, after.AssignsTo x p left right →
    ∃ q l r, before.AssignsTo x q l r ∧ left.node.start = Edit.offsetFrom 0 l.node.start applied ∧
      (holds l r = false ∨ before.Covered applied q r)

theorem Undeclares.unassigns (h : before.Undeclares after holds applied) (hbefore : before.Worded)
    (hx : before.Loses (before.givenUp holds) applied x) : before.Unassigns after holds applied x := by
  have hreplaced : ∀ {p left right}, before.AssignsTo x p left right → holds left right = true →
      (∃ e ∈ applied, e.Puts p.node.start p.node.stop (before.wording right.node)) ∨
        before.Covered applied p right := by
    intro p left right ha hholds
    by_cases hown : ∃ e ∈ applied, e.Puts p.node.start p.node.stop (before.wording right.node)
    · exact .inl hown
    · refine .inr ⟨fun e he hputs => hown ⟨e, he, hputs⟩, ?_⟩
      exact (h.assignments ⟨ha.listed, ha.sides, hholds⟩).resolve_left hown
  refine ⟨?_, hreplaced, ?_, ?_⟩
  · obtain ⟨p, -, -, q, hq, hname⟩ := hx
    exact mem_givenUp.mp (mem_of_doomed hq hname)
  · intro p left right ha hclear
    have htext : before.source.extract left.node.start left.node.stop = x.toUTF8 := by
      rw [← ha.name]
      exact Conversion.decode_ok.mp (hbefore.legible left ha.within)
    rw [h.text]
    exact Edit.stands_of_clear htext (fun e he => (h.fit.inside e he).1) h.fit.apart hclear
  · intro hkeeps p left right ha
    obtain ⟨q, l, r, hq, hkept, hmoved⟩ := hkeeps p left right ha
    refine ⟨q, l, r, hq, hmoved, ?_⟩
    cases hholds : holds l r with
    | false => exact .inl rfl
    | true =>
      rcases hreplaced hq hholds with ⟨e, he, hputs⟩ | hcovered
      · exact absurd hputs (hkept e he)
      · exact .inr hcovered

end Document

namespace Wrapper

variable {function : String} {names : List String}

end Wrapper

end TestMigration
