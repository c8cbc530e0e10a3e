import TestMigration.Proofs.Splice
import Mathlib.Data.List.Pairwise

/-! Which of the edits recorded a commit applies. The commit sweeps over them in their order
and looks at no more than the end of the edit applied last. Where the replaced ranges lie within
one another or apart, as the ranges of a tree's nodes do, that sweep keeps the outermost of them:
an edit is deferred only for one that stands around it. -/

namespace TestMigration

namespace Edit

/-- Two ranges lie apart, or one of them within the other. -/
def Nests (a b : Edit) : Prop :=
  a.stop ≤ b.start ∨ b.stop ≤ a.start ∨
    (a.start ≤ b.start ∧ b.stop ≤ a.stop) ∨ (b.start ≤ a.start ∧ a.stop ≤ b.stop)

/-- The replacements among the edits are recorded in their turn, and any two of them nest. -/
structure Laminar (es : List Edit) : Prop where
  nests : ∀ a ∈ es, ∀ b ∈ es, a.isInsertion = false → b.isInsertion = false → a.Nests b
  inTurn : ∀ a ∈ es, a.isInsertion = false → a.ahead = false

/-- A range holds another and is larger, or it is the same range recorded earlier. -/
def Outranks (r e : Edit) : Prop :=
  r.start ≤ e.start ∧ e.stop ≤ r.stop ∧
    (r.start < e.start ∨ e.stop < r.stop ∨ r.turn < e.turn)

/-- A replacement stands around an edit: strictly around the place of an insertion, around the
range of another replacement unless that comes first. -/
def Hides (r e : Edit) : Prop :=
  r.isInsertion = false ∧
    if e.isInsertion then r.start < e.start ∧ e.start < r.stop else r.Outranks e

/-- Some edit of a list stands around it. -/
def Hidden (es : List Edit) (e : Edit) : Prop := ∃ r ∈ es, r.Hides e

instance (a b : Edit) : Decidable (a.Nests b) := inferInstanceAs (Decidable (_ ∨ _ ∨ _ ∨ _))

instance (es : List Edit) : Decidable (Laminar es) :=
  decidable_of_iff ((∀ a ∈ es, ∀ b ∈ es, a.isInsertion = false → b.isInsertion = false →
      a.Nests b) ∧ ∀ a ∈ es, a.isInsertion = false → a.ahead = false)
    ⟨fun h => ⟨h.1, h.2⟩, fun h => ⟨h.nests, h.inTurn⟩⟩

instance (r e : Edit) : Decidable (r.Outranks e) := inferInstanceAs (Decidable (_ ∧ _ ∧ _))

instance (r e : Edit) : Decidable (r.Hides e) := inferInstanceAs (Decidable (_ ∧ _))

instance (es : List Edit) (e : Edit) : Decidable (Hidden es e) :=
  inferInstanceAs (Decidable (∃ r ∈ es, _))

theorem isInsertion_iff {e : Edit} : e.isInsertion = true ↔ e.start = e.stop := by
  simp [isInsertion]

theorem isInsertion_false_iff {e : Edit} (h : e.start ≤ e.stop) :
    e.isInsertion = false ↔ e.start < e.stop := by
  rw [← Bool.not_eq_true, isInsertion_iff]
  omega

theorem Hides.trans {a r e : Edit} (har : a.Hides r) (hre : r.Hides e) : a.Hides e := by
  obtain ⟨ha, har⟩ := har
  obtain ⟨hr, hre⟩ := hre
  rw [if_neg (by simp [hr])] at har
  refine ⟨ha, ?_⟩
  unfold Outranks at *
  split at hre <;> rename_i he
  · rw [if_pos he]
    omega
  · rw [if_neg he]
    omega

/-- What hides an edit reaches over its start and does not end before it. -/
theorem Hides.overlaps {r e : Edit} (he : e.start ≤ e.stop) (h : r.Hides e) :
    e.start < r.stop ∧ (r.start < e.stop ∧ r ≠ e) := by
  obtain ⟨hr, h⟩ := h
  unfold Outranks at h
  split at h <;> rename_i hi
  · have := isInsertion_iff.mp hi
    refine ⟨h.2, by omega, ?_⟩
    rintro rfl
    omega
  · have := (isInsertion_false_iff he).mp (by simpa using hi)
    refine ⟨by omega, by omega, ?_⟩
    rintro rfl
    omega

/-- An edit that comes first in the order and reaches over the start of another hides it. -/
theorem Laminar.hides {es : List Edit} (family : Laminar es) {a e : Edit} (ha : a ∈ es)
    (he : e ∈ es) (hrange : e.start ≤ e.stop) (hbefore : before a e = true)
    (hturn : a.turn ≠ e.turn) (hover : e.start < a.stop) : a.Hides e := by
  have hstart := start_le_of_before hbefore
  have hwide : a.isInsertion = false := (isInsertion_false_iff (by omega)).mpr (by omega)
  unfold before at hbefore
  refine ⟨hwide, ?_⟩
  by_cases hi : e.isInsertion = true
  · -- an insertion at the start of the replacement would come before it
    rw [if_pos hi]
    refine ⟨?_, hover⟩
    simp only [hwide, hi] at hbefore
    grind
  · have hi : e.isInsertion = false := by simpa using hi
    rw [if_neg (by simp [hi])]
    have hnest := family.nests a ha e he hwide hi
    have hlt := (isInsertion_false_iff hrange).mp hi
    simp only [hwide, hi, rank, family.inTurn a ha hwide, family.inTurn e he hi] at hbefore
    unfold Nests at hnest
    unfold Outranks
    grind

/-- The sweep over edits in their order defers those that another of them hides. -/
theorem Laminar.deferred_iff {es : List Edit} (family : Laminar es)
    (hrange : ∀ e ∈ es, e.start ≤ e.stop)
    (horder : es.Pairwise fun a b => before a b = true ∧ a.turn ≠ b.turn) :
    (∀ e ∈ (settle 0 es).1, ¬ Hidden es e) ∧ ∀ e ∈ (settle 0 es).2, Hidden es e := by
  have hperm := settle_perm 0 es
  have hsub := settle_sublist 0 es
  obtain ⟨-, hapart⟩ := @settle_apart 0 es hrange
  have hdeferred : ∀ e ∈ (settle 0 es).2, ∃ a ∈ (settle 0 es).1, a.Hides e := by
    intro e hd
    have he : e ∈ es := hperm.subset (by simp [hd])
    rcases settle_deferred horder e hd with h | ⟨a, ha, ⟨hb, ht⟩, hover⟩
    · omega
    · exact ⟨a, ha, family.hides (hsub.subset ha) he (hrange e he) hb ht hover⟩
  have happlied : ∀ a ∈ (settle 0 es).1, ∀ e ∈ (settle 0 es).1, ¬ a.Hides e := by
    intro a ha e he hides
    obtain ⟨h1, h2, hne⟩ := hides.overlaps (hrange e (hsub.subset he))
    have hsymm : Std.Symm fun x y : Edit => x.stop ≤ y.start ∨ y.stop ≤ x.start :=
      ⟨fun _ _ => Or.symm⟩
    have := (hapart.imp (S := fun x y => x.stop ≤ y.start ∨ y.stop ≤ x.start) .inl).forall ha he hne
    omega
  refine ⟨?_, ?_⟩
  · -- what hides an applied edit would be hidden itself by one that is applied
    rintro e he ⟨r, hr, hides⟩
    rcases List.mem_append.mp (hperm.mem_iff.mpr hr) with hr | hr
    · exact happlied r hr e he hides
    · obtain ⟨a, ha, har⟩ := hdeferred r hr
      exact happlied a ha e he (har.trans hides)
  · intro e he
    obtain ⟨a, ha, hides⟩ := hdeferred e he
    exact ⟨a, hsub.subset ha, hides⟩

/-- A sweep whose two parts a property tells apart is the list filtered by it. -/
theorem settle_eq_filter {P : Edit → Prop} [DecidablePred P] {cursor : Nat} {es : List Edit}
    (happlied : ∀ e ∈ (settle cursor es).1, ¬ P e) (hdeferred : ∀ e ∈ (settle cursor es).2, P e) :
    settle cursor es = (es.filter fun e => ¬ P e, es.filter fun e => P e) := by
  induction es generalizing cursor with
  | nil => rfl
  | cons e rest ih =>
    unfold settle at happlied hdeferred ⊢
    split at happlied <;> rename_i hc
    · simp only [if_pos hc] at hdeferred ⊢
      have he : P e := hdeferred e (by simp)
      have hrest := ih happlied fun x hx => hdeferred x (by simp [hx])
      simp [hrest, he]
    · simp only [if_neg hc] at hdeferred ⊢
      have he : ¬ P e := happlied e (by simp)
      have hrest := ih (fun x hx => happlied x (by simp [hx])) hdeferred
      simp [hrest, he]

/-- The edits that a commit of these is to apply, in their order. -/
def outermost (es : List Edit) : List Edit := (sorted es).filter fun e => ¬ Hidden es e

/-- The edits that a commit of these is to leave for another round, in their order. -/
def inner (es : List Edit) : List Edit := (sorted es).filter fun e => Hidden es e

end Edit

theorem settled_outermost {b : Batch} (family : Edit.Laminar b.edits)
    (hrange : ∀ e ∈ b.edits, e.start ≤ e.stop)
    (hturn : b.edits.Pairwise fun a b => a.turn ≠ b.turn) :
    b.settled = (Edit.outermost b.edits, Edit.inner b.edits) := by
  have hperm := Edit.sorted_perm b.edits
  have hmem : ∀ e, e ∈ Edit.sorted b.edits ↔ e ∈ b.edits := fun e => hperm.mem_iff
  have hhidden : ∀ e, Edit.Hidden (Edit.sorted b.edits) e ↔ Edit.Hidden b.edits e := by
    simp only [Edit.Hidden, hmem, implies_true]
  have hsorted : Edit.Laminar (Edit.sorted b.edits) :=
    ⟨fun a ha c hc => family.nests a ((hmem a).mp ha) c ((hmem c).mp hc),
      fun a ha => family.inTurn a ((hmem a).mp ha)⟩
  have horder := (Edit.sorted_pairwise b.edits).and
    ((hperm.pairwise_iff fun h => h.symm).mpr hturn)
  obtain ⟨happlied, hdeferred⟩ :=
    hsorted.deferred_iff (fun e he => hrange e ((hmem e).mp he)) horder
  exact Edit.settle_eq_filter (fun e he h => happlied e he ((hhidden e).mpr h))
    fun e he => (hhidden e).mp (hdeferred e he)

/-- A commit of replacements that nest, with any insertions: what stands within a larger range,
or in one replaced by an earlier request, is deferred, all else is applied, and the text that
takes the place of the old one is made by what is applied. -/
theorem commit_outermost (d : Document) (rs : List Request)
    (family : Edit.Laminar (recorded d.source.size rs)) :
    let known := recorded d.source.size rs
    let after := d.commit ((Batch.open' d.generation).requestAll d.generation d.source.size rs)
    after.2.1.deferred = Edit.inner known ∧
      after.2.1.applied = (Edit.outermost known).length ∧
      (∀ e ∈ known, (e ∈ after.2.1.deferred ↔ Edit.Hidden known e) ∧
        (e ∈ Edit.outermost known ↔ ¬ Edit.Hidden known e)) ∧
      (after.1 = .ok () →
        after.2.2.source.data.toList = Edit.replaced d.source (Edit.outermost known)) := by
  intro known after
  let b := (Batch.open' d.generation).requestAll d.generation d.source.size rs
  have hreq : b = { Batch.open' d.generation with edits := known } := Batch.requestAll_open _ _ _
  have hedits : b.edits = known := by rw [hreq]
  have hsettled : b.settled = (Edit.outermost known, Edit.inner known) := by
    rw [← hedits]
    exact settled_outermost (by rw [hedits]; exact family)
      (fun e he => (recorded_inside (hedits ▸ he)).1) (by rw [hedits]; exact recorded_turns _ _)
  have hspent : after.2.1.deferred = Edit.inner known ∧
      after.2.1.applied = (Edit.outermost known).length := by
    have hspent : b.spent.deferred = Edit.inner known ∧
        b.spent.applied = (Edit.outermost known).length := by
      simp [Batch.spent, hsettled]
    rcases Document.commit_cases d b with ⟨hc, -⟩ | ⟨-, he, heq⟩ | ⟨-, -, _, -, heq⟩ |
      ⟨-, -, _, _, -, heq⟩
    · rw [hreq] at hc
      cases hc
    · have hnone : known = [] := hedits ▸ he
      simp only [after, b] at heq ⊢
      rw [heq, hnone]
      exact ⟨congrArg Batch.deferred hreq, congrArg Batch.applied hreq⟩
    · simp only [after, b] at heq ⊢
      rw [heq]
      exact hspent
    · simp only [after, b] at heq ⊢
      rw [heq]
      exact hspent
  refine ⟨hspent.1, hspent.2, ?_, ?_⟩
  · intro e he
    have hmem : e ∈ Edit.sorted known := (Edit.sorted_perm known).mem_iff.mpr he
    rw [hspent.1]
    simp [Edit.inner, Edit.outermost, hmem]
  · intro hok
    have hall := (commit_conserves d rs hok).1.bytes
    rw [hsettled] at hall
    exact hall

/-- Replacements in one another, two of one range, and insertions at the ends of a range and
inside it. -/
def nested : List Request :=
  [⟨2, 3, "Y", false⟩, ⟨1, 4, "X", false⟩, ⟨1, 4, "W", false⟩, ⟨1, 1, "p", true⟩,
    ⟨4, 4, "z", false⟩, ⟨2, 2, "i", false⟩, ⟨4, 6, "V", false⟩]

theorem commit_outermost_nested :
    let known := recorded 6 nested
    let after := (anyText "abcdef").commit ((Batch.open' 0).requestAll 0 6 nested)
    after.2.1.deferred.map (fun e => (e.start, e.stop)) = [(1, 4), (2, 2), (2, 3)] ∧
      after.2.2.source = "apXzV".toUTF8 ∧
      after.2.1.deferred = Edit.inner known ∧
      after.2.1.applied = (Edit.outermost known).length ∧
      (∀ e ∈ known, (e ∈ after.2.1.deferred ↔ Edit.Hidden known e) ∧
        (e ∈ Edit.outermost known ↔ ¬ Edit.Hidden known e)) ∧
      (after.1 = .ok () →
        after.2.2.source.data.toList = Edit.replaced (anyText "abcdef").source
          (Edit.outermost known)) :=
  ⟨by decide +kernel, by decide +kernel,
    commit_outermost (anyText "abcdef") nested (by decide +kernel)⟩

end TestMigration
