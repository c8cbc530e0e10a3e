import TestMigration.Proofs.Gathering

/-! Insertions. A text that is put in front of a byte takes nothing away, so none of several insertions is
in the way of another one: a batch makes them all, and those at one offset in the order in which they were
recorded. -/

namespace TestMigration

/-- The offset of a byte, and a text that is put in front of it. -/
abbrev Insertion := Nat × String

namespace Insertion

def replacement (i : Insertion) : Replacement := ((i.1, i.1), i.2)

/-- Insertions in the order of the text, those at one offset in the order that they had. -/
def inOrder (is : List Insertion) : List Insertion := is.insertionSort fun a b => a.1 ≤ b.1

/-- What insertions make of a text. -/
def made (source : ByteArray) (is : List Insertion) : ByteArray :=
  Edit.splice source 0 (Edit.numbered 0 ((inOrder is).map replacement))

/-- The bytes of the text, in front of each those of the texts that are put there. -/
def bytes (source : ByteArray) (is : List Insertion) : List UInt8 :=
  (List.range (source.size + 1)).flatMap fun offset =>
    (is.filter (·.1 == offset)).flatMap (·.2.toUTF8.data.toList) ++ source.data.toList[offset]?.toList

variable {i : Insertion} {is : List Insertion}

theorem perm_inOrder (is : List Insertion) : (inOrder is).Perm is := List.perm_insertionSort _ is

theorem pairwise_inOrder (is : List Insertion) : (inOrder is).Pairwise fun a b => a.1 ≤ b.1 := by
  have htotal : Std.Total fun a b : Insertion => a.1 ≤ b.1 := ⟨fun a b => Nat.le_total a.1 b.1⟩
  have htrans : IsTrans Insertion fun a b => a.1 ≤ b.1 := ⟨fun _ _ _ => Nat.le_trans⟩
  exact List.pairwise_insertionSort _ is

theorem filter_orderedInsert (offset : Nat) :
    (is.orderedInsert (fun a b => a.1 ≤ b.1) i).filter (·.1 == offset) = (i :: is).filter (·.1 == offset) := by
  induction is with
  | nil => rfl
  | cons j is ih =>
    rw [List.orderedInsert_cons]
    split
    · rfl
    · rename_i hlt
      -- the two are at different offsets, so one of them is dropped
      have hne : ¬ (i.1 = offset ∧ j.1 = offset) := by omega
      simp only [List.filter_cons, ih, beq_iff_eq]
      by_cases hi : i.1 = offset
      · rw [if_pos hi, if_pos hi, if_neg (c := j.1 = offset) fun hj => hne ⟨hi, hj⟩,
          if_neg (c := j.1 = offset) fun hj => hne ⟨hi, hj⟩]
      · rw [if_neg hi, if_neg hi]

theorem filter_inOrder (is : List Insertion) (offset : Nat) :
    (inOrder is).filter (·.1 == offset) = is.filter (·.1 == offset) := by
  induction is with
  | nil => rfl
  | cons i is ih =>
    unfold inOrder at ih ⊢
    rw [List.insertionSort_cons, filter_orderedInsert, List.filter_cons, ih, List.filter_cons]

end Insertion

open Insertion (replacement inOrder made bytes)

variable {source : ByteArray} {i : Insertion} {is : List Insertion}

namespace Edit

/-- An insertion comes before later ones that are not in front of it. -/
theorem makes_place {turn : Nat} {es : List Edit} (h : Makes es (is.map replacement))
    (hlater : ∀ e ∈ es, turn < e.turn ∧ e.ahead = false) :
    Makes (place (ofReplacement turn (replacement i)) es)
      ((is.orderedInsert (fun a b => a.1 ≤ b.1) i).map replacement) := by
  induction is generalizing es with
  | nil =>
    cases h
    exact .cons ⟨rfl, rfl, rfl⟩ .nil
  | cons j is ih =>
    cases h with
    | @cons e _ es _ hputs hrest =>
      obtain ⟨⟨hturn, hahead⟩, hlater⟩ := List.forall_mem_cons.mp hlater
      have hbefore : before (ofReplacement turn (replacement i)) e = decide (i.1 ≤ j.1) := by
        have hstart : e.start = j.1 := hputs.1
        have hstop : e.stop = j.1 := hputs.2.1
        unfold before isInsertion rank ofReplacement replacement
        rw [hstart, hstop, hahead]
        simp only [beq_self_eq_true, bne_self_eq_false, Bool.false_eq_true, if_false, bne_iff_ne, ne_eq,
          ite_not]
        split
        · exact decide_eq_decide.mpr (by omega)
        · exact decide_eq_decide.mpr (by omega)
      rw [place, hbefore, List.orderedInsert_cons]
      by_cases hle : i.1 ≤ j.1
      · rw [if_pos (decide_eq_true hle), if_pos hle]
        exact .cons ⟨rfl, rfl, rfl⟩ (.cons hputs hrest)
      · rw [if_neg (by rwa [decide_eq_true_iff]), if_neg hle]
        exact .cons hputs (ih hrest hlater)

theorem later_of_mem_numbered {turn : Nat} {rs : List Replacement} {e : Edit} (h : e ∈ numbered turn rs) :
    turn ≤ e.turn ∧ e.ahead = false := by
  induction rs generalizing turn with
  | nil => cases h
  | cons r rs ih =>
    rcases List.mem_cons.mp h with rfl | h
    · exact ⟨Nat.le_refl _, rfl⟩
    · exact (ih h).imp_left Nat.le_of_succ_le

theorem makes_sorted (turn : Nat) (is : List Insertion) :
    Makes (sorted (numbered turn (is.map replacement))) ((inOrder is).map replacement) := by
  induction is generalizing turn with
  | nil => exact .nil
  | cons i is ih =>
    unfold inOrder at ih ⊢
    rw [List.insertionSort_cons]
    refine makes_place (ih (turn + 1)) fun e he => ?_
    exact later_of_mem_numbered ((sorted_perm _).subset he)

theorem settle_insertions {cursor : Nat} {es : List Edit} (hcursor : ∀ e ∈ es, cursor ≤ e.start)
    (hes : ∀ e ∈ es, e.start = e.stop) (horder : es.Pairwise fun a b => a.start ≤ b.start) :
    settle cursor es = (es, []) := by
  induction es generalizing cursor with
  | nil => rfl
  | cons e es ih =>
    obtain ⟨hself, hes⟩ := List.forall_mem_cons.mp hes
    obtain ⟨hfirst, horder⟩ := List.pairwise_cons.mp horder
    rw [settle, if_neg (hcursor e List.mem_cons_self).not_gt, ← hself, ih hfirst hes horder]

end Edit

namespace Batch

/-- All insertions are made. -/
theorem outcome_insertions (generation : Nat) (source : ByteArray) (is : List Insertion) :
    (holding generation (is.map replacement)).outcome source = made source is ∧
      (holding generation (is.map replacement)).settled.2 = [] := by
  have hmakes := Edit.makes_sorted 0 is
  have hranges : ∀ e ∈ Edit.sorted (Edit.numbered 0 (is.map replacement)), e.start = e.stop := by
    intro e he
    obtain ⟨r, hr, hstart, hstop, -⟩ := Edit.mem_numbered ((Edit.sorted_perm _).subset he)
    obtain ⟨i, -, rfl⟩ := List.mem_map.mp hr
    exact hstart.trans hstop.symm
  have horder := (Edit.sorted_pairwise (Edit.numbered 0 (is.map replacement))).imp start_le_of_before
  have hsettle := Edit.settle_insertions (fun e _ => Nat.zero_le _) hranges horder
  unfold outcome settled holding
  dsimp only
  rw [hsettle]
  exact ⟨Edit.splice_of_makes hmakes, rfl⟩

end Batch

namespace Insertion

theorem made_nil (source : ByteArray) : made source [] = source := ByteArray.extract_zero_size

/-- Nothing of the text goes, and what is put in front of a byte comes in the order of the list. -/
theorem toList_made (hinside : ∀ i ∈ is, i.1 ≤ source.size) :
    (made source is).data.toList = bytes source is := by
  have hedits : ∀ e ∈ Edit.numbered 0 ((inOrder is).map replacement), e.start = e.stop ∧ e.stop ≤ source.size := by
    intro e he
    obtain ⟨r, hr, hstart, hstop, -⟩ := Edit.mem_numbered he
    obtain ⟨i, hi, rfl⟩ := List.mem_map.mp hr
    exact ⟨hstart.trans hstop.symm, hstop.trans_le (hinside i ((perm_inOrder is).subset hi))⟩
  have horder : (Edit.numbered 0 ((inOrder is).map replacement)).Pairwise fun a b => a.stop ≤ b.start := by
    have hranges : ((Edit.numbered 0 ((inOrder is).map replacement)).map Edit.range).Pairwise
        fun a b => a.2 ≤ b.1 := by
      rw [Edit.map_range_numbered, List.map_map]
      exact List.pairwise_map.mpr (pairwise_inOrder is)
    exact List.pairwise_map.mp hranges
  have hall := Edit.toList_splice source (Nat.zero_le _) (fun e _ => Nat.zero_le _)
    (fun e he => ⟨(hedits e he).1.le, (hedits e he).2⟩) horder
  refine hall.trans ?_
  unfold bytes
  rw [List.range_eq_range']
  refine List.flatMap_congr fun offset _ => ?_
  have huncovered : (Edit.numbered 0 ((inOrder is).map replacement)).any (·.covers offset) = false := by
    rw [List.any_eq_false]
    intro e he
    have hempty := (hedits e he).1
    simp only [Edit.covers, Bool.and_eq_true, decide_eq_true_eq]
    omega
  have htexts : ∀ (turn : Nat) (is : List Insertion),
      ((Edit.numbered turn (is.map replacement)).filter (·.start == offset)).flatMap (·.text.data.toList) =
        (is.filter (·.1 == offset)).flatMap (·.2.toUTF8.data.toList) := by
    intro turn is
    induction is generalizing turn with
    | nil => rfl
    | cons i is ih =>
      rw [List.map_cons, Edit.numbered, List.filter_cons, List.filter_cons]
      change (if (i.1 == offset) = true then _ else _ : List Edit).flatMap _ = _
      split
      · rw [List.flatMap_cons, List.flatMap_cons, ih]
        rfl
      · exact ih (turn + 1)
  unfold Edit.bytesAt
  rw [huncovered, htexts, filter_inOrder]
  rfl

end Insertion

end TestMigration
