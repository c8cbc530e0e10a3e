import TestMigration.Proofs.Nesting

/-! Lines that statements stand on. A statement that shares its lines with nothing but blanks takes them
with it when it goes. What goes is told byte by byte here, without any search for the ends of lines; and
of nodes that begin and end with something visible, what goes with one is apart from what goes with
another, or within it. -/

namespace TestMigration

open Script (Node Kind Place)

/-! ## Ends of lines -/

/-- The line of the offset `p` begins at `s`. -/
structure BeginsLine (bytes : ByteArray) (p s : Nat) : Prop where
  le : s ≤ p
  clear : ∀ j, s ≤ j → j < p → bytes.get! j ≠ 10
  begins : s = 0 ∨ bytes.get! (s - 1) = 10

/-- The line of the offset `p` ends at `s`, just past its line feed. -/
structure EndsLine (bytes : ByteArray) (p s : Nat) : Prop where
  le : p ≤ s
  inside : s ≤ bytes.size
  clear : ∀ j, p ≤ j → j + 1 < s → bytes.get! j ≠ 10
  ends : s = bytes.size ∨ p < s ∧ bytes.get! (s - 1) = 10

theorem beginsLine_lineStart (bytes : ByteArray) (p : Nat) :
    BeginsLine bytes p (Script.lineStart bytes p) := by
  induction p with
  | zero => exact ⟨Nat.le_refl 0, fun _ _ hj => absurd hj (Nat.not_lt_zero _), .inl rfl⟩
  | succ p ih =>
    unfold Script.lineStart
    split
    · rename_i hfeed
      exact ⟨Nat.le_refl _, fun _ hle hlt => absurd hle (Nat.not_le.mpr hlt), .inr (beq_iff_eq.mp hfeed)⟩
    · rename_i hclear
      refine ⟨Nat.le_succ_of_le ih.le, fun j hj hlt => ?_, ih.begins⟩
      rcases Nat.lt_succ_iff_lt_or_eq.mp hlt with hlt | rfl
      · exact ih.clear j hj hlt
      · exact fun hfeed => hclear (beq_iff_eq.mpr hfeed)

theorem endsLine_lineStopFrom (bytes : ByteArray) {fuel p : Nat} (hfuel : bytes.size < fuel + p)
    (hp : p ≤ bytes.size) : EndsLine bytes p (Document.lineStopFrom bytes fuel p) := by
  induction fuel generalizing p with
  | zero => omega
  | succ fuel ih =>
    unfold Document.lineStopFrom
    split
    · rename_i hlt
      split
      · rename_i hfeed
        exact ⟨Nat.le_succ p, hlt, fun j hj hend => by omega, .inr ⟨Nat.lt_succ_self p, beq_iff_eq.mp hfeed⟩⟩
      · rename_i hclear
        have hrest := ih (p := p + 1) (by omega) hlt
        refine ⟨Nat.le_of_succ_le hrest.le, hrest.inside, fun j hj hend => ?_, ?_⟩
        · rcases Nat.eq_or_lt_of_le hj with rfl | hj
          · exact fun hfeed => hclear (beq_iff_eq.mpr hfeed)
          · exact hrest.clear j hj hend
        · exact hrest.ends.imp_right fun h => ⟨Nat.lt_of_succ_lt h.1, h.2⟩
    · rename_i hend
      exact ⟨hp, Nat.le_refl _, fun j hj hlt => by omega, .inl rfl⟩

theorem BeginsLine.le_iff {bytes : ByteArray} {p s i : Nat} (h : BeginsLine bytes p s) :
    s ≤ i ↔ ∀ j < p, i ≤ j → bytes.get! j ≠ 10 := by
  refine ⟨fun hs j hlt hj => h.clear j (hs.trans hj) hlt, fun hclear => ?_⟩
  by_contra hs
  have hle := h.le
  rcases h.begins with hzero | hfeed
  · omega
  · exact hclear (s - 1) (by omega) (by omega) hfeed

theorem EndsLine.lt_iff {bytes : ByteArray} {p s i : Nat} (h : EndsLine bytes p s)
    (hsize : i < bytes.size) : i < s ↔ ∀ j < i, p ≤ j → bytes.get! j ≠ 10 := by
  refine ⟨fun hs j hlt hj => h.clear j hj (by omega), fun hclear => ?_⟩
  by_contra hs
  rcases h.ends with hend | ⟨hlt, hfeed⟩
  · omega
  · exact hclear (s - 1) (by omega) (by omega) hfeed

/-- The line of a later offset does not begin before the line of an earlier one has ended. -/
theorem EndsLine.le_begin {bytes : ByteArray} {p q s t : Nat} (hp : EndsLine bytes p s)
    (hq : BeginsLine bytes q t) (hsq : s ≤ q) (hq' : q < bytes.size) : s ≤ t := by
  rcases hp.ends with hend | ⟨hlt, hfeed⟩
  · omega
  · by_contra hts
    exact hq.clear (s - 1) (by omega) (by omega) hfeed

namespace Document

/-! ## What goes with a node -/

/-- The byte is beside the range on one of its lines: no line feed stands between them. -/
def Beside (d : Document) (r : Stretch) (i : Nat) : Prop :=
  i < r.1 ∧ (∀ j < r.1, i ≤ j → d.source.get! j ≠ 10) ∨
    r.2 ≤ i ∧ ∀ j < i, r.2 ≤ j → d.source.get! j ≠ 10

instance (d : Document) (r : Stretch) : DecidablePred (d.Beside r) := fun _ =>
  inferInstanceAs (Decidable (_ ∨ _))

/-- Nothing but blanks shares the lines of the range. -/
def Alone (d : Document) (r : Stretch) : Prop :=
  ∀ i < d.source.size, d.Beside r i → isBlankByte (d.source.get! i) = true

instance (d : Document) : DecidablePred d.Alone := fun _ => inferInstanceAs (Decidable (∀ _, _))

/-- The byte goes with the node. A node that stands where statements do takes its lines with it, if it
has them for itself. -/
def Takes (d : Document) (p : Place) (i : Nat) : Prop :=
  p.node.start ≤ i ∧ i < p.node.stop ∨
    (p.parent?.map (·.node.kind.holdsStatements)).getD false = true ∧ d.Alone p.node.range ∧
      d.Beside p.node.range i

instance (d : Document) (p : Place) : DecidablePred (d.Takes p) := fun _ =>
  inferInstanceAs (Decidable (_ ∨ _))

variable {d : Document} {p q : Place} {i : Nat}

theorem all_extract (bytes : ByteArray) (first last : Nat) (f : UInt8 → Bool) :
    (bytes.extract first last).toList.all f = true ↔
      ∀ i, first ≤ i → i < last → i < bytes.size → f (bytes.get! i) = true := by
  have hget : ∀ i (hi : i < bytes.data.toList.length), bytes.get! i = bytes.data.toList[i] := by
    intro i hi
    change bytes.data[i]! = _
    rw [getElem!_pos bytes.data i hi, Array.getElem_toList]
  have hsize : bytes.data.toList.length = bytes.size := rfl
  rw [show (bytes.extract first last).toList = (bytes.extract first last).data.toList from
      toList_loop _ 0 [], Edit.toList_extract, List.all_eq_true]
  constructor
  · intro h i hfirst hlast hi
    rw [hget i (hsize ▸ hi)]
    refine h _ (List.mem_iff_getElem?.mpr ⟨i - first, ?_⟩)
    rw [List.getElem?_take_of_lt (by omega), List.getElem?_drop, Nat.add_sub_cancel' hfirst]
    exact List.getElem?_eq_getElem _
  · intro h b hb
    obtain ⟨j, hj, rfl⟩ := List.mem_iff_getElem.mp hb
    rw [List.length_take, List.length_drop] at hj
    rw [List.getElem_take, List.getElem_drop, ← hget]
    exact h (first + j) (by omega) (by omega) (by omega)

/-- The node lies in the text. -/
def Holds (d : Document) (p : Place) : Prop := p.node.start ≤ p.node.stop ∧ p.node.stop ≤ d.source.size

theorem beginsLine_of_le {offset : Nat} (h : offset ≤ d.source.size) :
    BeginsLine d.source offset (d.lineStart offset) := by
  unfold lineStart
  rw [Nat.min_eq_left h]
  exact beginsLine_lineStart _ _

theorem Holds.beginsLine (hp : d.Holds p) :
    BeginsLine d.source p.node.start (d.lineStart p.node.start) := beginsLine_of_le (hp.1.trans hp.2)

theorem endsLine_lineStop {offset : Nat} (h : offset ≤ d.source.size) :
    EndsLine d.source offset (d.lineStop offset) := endsLine_lineStopFrom _ (by omega) h

theorem beside_iff (hp : d.Holds p) (hi : i < d.source.size) : d.Beside p.node.range i ↔
    d.lineStart p.node.start ≤ i ∧ i < p.node.start ∨ p.node.stop ≤ i ∧ i < d.lineStop p.node.stop := by
  unfold Beside Node.range
  refine or_congr ?_ ?_
  · rw [and_comm]
    exact and_congr_left fun _ => hp.beginsLine.le_iff.symm
  · exact and_congr_right fun _ => ((endsLine_lineStop hp.2).lt_iff hi).symm

theorem alone_iff (hp : d.Holds p) : d.Alone p.node.range ↔
    (d.source.extract (d.lineStart p.node.start) p.node.start).toList.all isBlankByte = true ∧
      (d.source.extract p.node.stop (d.lineStop p.node.stop)).toList.all isBlankByte = true := by
  rw [all_extract, all_extract]
  constructor
  · intro h
    refine ⟨fun i hfirst hlast hi => ?_, fun i hfirst hlast hi => ?_⟩
    · exact h i hi ((beside_iff hp hi).mpr (.inl ⟨hfirst, hlast⟩))
    · exact h i hi ((beside_iff hp hi).mpr (.inr ⟨hfirst, hlast⟩))
  · rintro ⟨hbefore, hbehind⟩ i hi hbeside
    rcases (beside_iff hp hi).mp hbeside with ⟨hfirst, hlast⟩ | ⟨hfirst, hlast⟩
    · exact hbefore i hfirst hlast hi
    · exact hbehind i hfirst hlast hi

/-- A deletion takes the node alone, or its lines as a whole. -/
theorem extent_cases (hp : d.Holds p) :
    (p.parent?.map (·.node.kind.holdsStatements)).getD false = true ∧ d.Alone p.node.range ∧
        d.extent p = (d.lineStart p.node.start, d.lineStop p.node.stop) ∨
      ¬((p.parent?.map (·.node.kind.holdsStatements)).getD false = true ∧ d.Alone p.node.range) ∧
        d.extent p = p.node.range := by
  unfold extent
  split
  · rename_i hholds
    unfold Handle.lineExtent
    dsimp only
    split
    · rename_i hblank
      exact .inl ⟨hholds, (alone_iff hp).mpr (Bool.and_eq_true_iff.mp hblank), rfl⟩
    · rename_i hblank
      refine .inr ⟨fun h => hblank ?_, rfl⟩
      exact Bool.and_eq_true_iff.mpr ((alone_iff hp).mp h.2)
  · rename_i hholds
    exact .inr ⟨fun h => hholds h.1, rfl⟩

/-- A deletion takes just the bytes that go with the node. -/
theorem takes_iff (hp : d.Holds p) (hi : i < d.source.size) :
    d.Takes p i ↔ (d.extent p).1 ≤ i ∧ i < (d.extent p).2 := by
  unfold Takes
  rcases extent_cases hp with ⟨hholds, halone, hextent⟩ | ⟨hnot, hextent⟩
  · rw [hextent, beside_iff hp hi]
    have hfirst := hp.beginsLine.le
    have hlast := (endsLine_lineStop hp.2).le
    have hle := hp.1
    simp only [hholds, halone, true_and]
    omega
  · rw [hextent]
    constructor
    · rintro (h | ⟨hholds, halone, -⟩)
      · exact h
      · exact absurd ⟨hholds, halone⟩ hnot
    · exact .inl

theorem extent_inside (hp : d.Holds p) : (d.extent p).1 ≤ p.node.start ∧ p.node.stop ≤ (d.extent p).2 ∧
    (d.extent p).2 ≤ d.source.size := by
  rcases extent_cases hp with ⟨-, -, hextent⟩ | ⟨-, hextent⟩
  · rw [hextent]
    have hends := endsLine_lineStop hp.2
    exact ⟨hp.beginsLine.le, hends.le, hends.inside⟩
  · rw [hextent]
    exact ⟨Nat.le_refl _, Nat.le_refl _, hp.2⟩

/-! ## Nodes of which both ends can be seen -/

/-- The node lies in the text, and neither its first byte nor its last one is blank. -/
structure Visible (d : Document) (p : Place) : Prop where
  wide : p.node.start < p.node.stop
  inside : p.node.stop ≤ d.source.size
  first : isBlankByte (d.source.get! p.node.start) = false
  last : isBlankByte (d.source.get! (p.node.stop - 1)) = false

theorem Visible.holds (hp : d.Visible p) : d.Holds p := ⟨hp.wide.le, hp.inside⟩

/-- What can be seen is not on the lines of a node that has them for itself. -/
theorem not_beside (halone : d.Alone q.node.range) (hi : i < d.source.size)
    (hseen : isBlankByte (d.source.get! i) = false) : ¬ d.Beside q.node.range i := by
  intro hbeside
  rw [halone i hi hbeside] at hseen
  cases hseen

/-- The lines of a node do not begin before what stands in front of it has ended. -/
theorem stop_le_extent (hp : d.Visible p) (hq : d.Visible q) (h : p.node.stop ≤ q.node.start) :
    p.node.stop ≤ (d.extent q).1 := by
  have hwide := hp.wide
  have hsize := hp.inside
  rcases extent_cases hq.holds with ⟨-, halone, hextent⟩ | ⟨-, hextent⟩
  · have hnot := not_beside halone (i := p.node.stop - 1) (by omega) hp.last
    rw [beside_iff hq.holds (by omega)] at hnot
    rw [hextent]
    dsimp only
    omega
  · rw [hextent]
    exact h

/-- The lines of a node end before what stands behind it begins. -/
theorem extent_le_start (hp : d.Visible p) (hq : d.Visible q) (h : p.node.stop ≤ q.node.start) :
    (d.extent p).2 ≤ q.node.start := by
  have hwide := hq.wide
  have hsize := hq.inside
  rcases extent_cases hp.holds with ⟨-, halone, hextent⟩ | ⟨-, hextent⟩
  · have hnot := not_beside halone (i := q.node.start) (by omega) hq.first
    rw [beside_iff hp.holds (by omega)] at hnot
    rw [hextent]
    dsimp only
    omega
  · rw [hextent]
    exact h

/-- What goes with a node ends before what goes with one behind it. -/
theorem extent_apart (hp : d.Visible p) (hq : d.Visible q) (h : p.node.stop ≤ q.node.start) :
    (d.extent p).2 ≤ (d.extent q).1 := by
  have hstop := stop_le_extent hp hq h
  have hstart := extent_le_start hp hq h
  rcases extent_cases hp.holds with ⟨-, -, hextent⟩ | ⟨-, hextent⟩
  · rcases extent_cases hq.holds with ⟨-, -, hextent'⟩ | ⟨-, hextent'⟩
    · rw [hextent] at hstart ⊢
      rw [hextent']
      exact (endsLine_lineStop hp.inside).le_begin hq.holds.beginsLine hstart
        (hq.wide.trans_le hq.inside)
    · rw [hextent']
      exact hstart
  · rw [hextent]
    exact hstop

/-- What goes with a node is within any node around it. -/
theorem extent_within (hp : d.Visible p) (hq : d.Visible q) (hstart : p.node.start < q.node.start)
    (hstop : q.node.stop < p.node.stop) : p.node.start < (d.extent q).1 ∧ (d.extent q).2 < p.node.stop := by
  have hsize := hp.inside
  have hwide := hq.wide
  rcases extent_cases hq.holds with ⟨-, halone, hextent⟩ | ⟨-, hextent⟩
  · have hfirst := not_beside halone (i := p.node.start) (by omega) hp.first
    have hlast := not_beside halone (i := p.node.stop - 1) (by omega) hp.last
    rw [beside_iff hq.holds (by omega)] at hfirst hlast
    rw [hextent]
    dsimp only
    omega
  · rw [hextent]
    exact ⟨hstart, hstop⟩

end Document

end TestMigration
