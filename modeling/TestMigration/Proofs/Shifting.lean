import TestMigration.Proofs.Insertions

/-! Where the bytes of a text come to stand when others are put between them. What begins at an offset
stands behind all that is put in front of that offset; what ends there, in front of it. So a stretch in
which nothing is put is there as it was. -/

namespace TestMigration

namespace Insertion

/-- The bytes that are put in front of an offset. -/
def bytesAt (is : List Insertion) (offset : Nat) : List UInt8 :=
  (is.filter (·.1 == offset)).flatMap (·.2.toUTF8.data.toList)

/-- The byte at an offset, and in front of it what is put there. -/
def bytesOf (source : ByteArray) (is : List Insertion) (offset : Nat) : List UInt8 :=
  bytesAt is offset ++ source.data.toList[offset]?.toList

/-- What comes of the text in front of an offset. -/
def bytesBefore (source : ByteArray) (is : List Insertion) (offset : Nat) : List UInt8 :=
  (List.range offset).flatMap (bytesOf source is)

/-- The size of the texts that are put at offsets that pass the test. -/
def sizeAt : List Insertion → (Nat → Bool) → Nat
  | [], _ => 0
  | i :: is, test => (if test i.1 then i.2.utf8ByteSize else 0) + sizeAt is test

/-- Where what begins at an offset comes to stand. -/
def movedStart (is : List Insertion) (offset : Nat) : Nat := offset + sizeAt is (· ≤ offset)

/-- Where what ends at an offset comes to stand. -/
def movedStop (is : List Insertion) (offset : Nat) : Nat := offset + sizeAt is (· < offset)

/-- Nothing is put between the two offsets. -/
def Clear (is : List Insertion) (first last : Nat) : Prop := ∀ i ∈ is, i.1 ≤ first ∨ last ≤ i.1

instance (is : List Insertion) (first last : Nat) : Decidable (Clear is first last) :=
  inferInstanceAs (Decidable (∀ _ ∈ _, _))

variable {source : ByteArray} {i : Insertion} {is : List Insertion} {a b offset : Nat}

theorem sizeAt_cons (test : Nat → Bool) :
    sizeAt (i :: is) test = (if test i.1 then i.2.utf8ByteSize else 0) + sizeAt is test := rfl

theorem sizeAt_nowhere (is : List Insertion) : sizeAt is (fun _ => false) = 0 := by
  induction is with
  | nil => rfl
  | cons i is ih => rw [sizeAt_cons, if_neg Bool.false_ne_true, ih]

theorem length_bytesAt (is : List Insertion) (offset : Nat) :
    (bytesAt is offset).length = sizeAt is (· == offset) := by
  unfold bytesAt
  induction is with
  | nil => rfl
  | cons i is ih =>
    rw [List.filter_cons, sizeAt_cons, ← ih]
    split
    · rw [List.flatMap_cons, List.length_append]
      rfl
    · rw [Nat.zero_add]

/-- An offset that passes just one of two tests counts once. -/
theorem sizeAt_add {test test' whole : Nat → Bool}
    (h : ∀ o, whole o = (test o || test' o) ∧ ¬ (test o = true ∧ test' o = true)) (is : List Insertion) :
    sizeAt is whole = sizeAt is test + sizeAt is test' := by
  induction is with
  | nil => rfl
  | cons i is ih =>
    obtain ⟨hwhole, hnot⟩ := h i.1
    rw [sizeAt_cons, sizeAt_cons, sizeAt_cons, ih, hwhole]
    cases htest : test i.1 <;> cases htest' : test' i.1
    · simp
    · simp only [Bool.or_true, if_true, Bool.false_eq_true, if_false]
      omega
    · simp only [Bool.or_false, if_true, Bool.false_eq_true, if_false]
      omega
    · exact absurd ⟨htest, htest'⟩ hnot

theorem movedStart_eq (is : List Insertion) (offset : Nat) :
    movedStart is offset = movedStop is offset + (bytesAt is offset).length := by
  have hsum : sizeAt is (· ≤ offset) = sizeAt is (· < offset) + sizeAt is (· == offset) := sizeAt_add
    (fun o => ⟨by rw [Bool.eq_iff_iff]; simp only [decide_eq_true_eq, Bool.or_eq_true, beq_iff_eq]; omega,
      by simp only [decide_eq_true_eq, beq_iff_eq]; omega⟩) is
  unfold movedStart movedStop
  rw [length_bytesAt, hsum, Nat.add_assoc]

theorem bytesBefore_succ (source : ByteArray) (is : List Insertion) (offset : Nat) :
    bytesBefore source is (offset + 1) = bytesBefore source is offset ++ bytesOf source is offset := by
  unfold bytesBefore
  rw [List.range_succ, List.flatMap_append, List.flatMap_singleton]

theorem isPrefix_bytesBefore (hab : a ≤ b) : bytesBefore source is a <+: bytesBefore source is b := by
  induction b, hab using Nat.le_induction with
  | base => exact List.prefix_refl _
  | succ b _ ih =>
    rw [bytesBefore_succ]
    exact ih.trans (List.prefix_append _ _)

theorem length_bytesBefore (h : offset ≤ source.size) :
    (bytesBefore source is offset).length = movedStop is offset := by
  have hlength : source.data.toList.length = source.size := rfl
  induction offset with
  | zero =>
    unfold movedStop
    rw [show (fun o => decide (o < 0)) = fun _ => false from funext fun o => decide_eq_false (Nat.not_lt_zero o),
      sizeAt_nowhere]
    rfl
  | succ offset ih =>
    have hnext : movedStop is (offset + 1) = movedStart is offset + 1 := by
      unfold movedStop movedStart
      rw [show (fun o => decide (o < offset + 1)) = fun o => decide (o ≤ offset) from
        funext fun o => decide_eq_decide.mpr Nat.lt_succ_iff]
      omega
    rw [bytesBefore_succ, bytesOf, List.length_append, List.length_append, ih (by omega), hnext, movedStart_eq,
      List.getElem?_eq_getElem (by omega), Option.toList_some, List.length_singleton, Nat.add_assoc]

theorem length_bytesBefore_at (is : List Insertion) (h : offset ≤ source.size) :
    (bytesBefore source is offset ++ bytesAt is offset).length = movedStart is offset := by
  rw [List.length_append, length_bytesBefore h, movedStart_eq]

theorem isPrefix_bytes (is : List Insertion) (h : offset ≤ source.size) :
    bytesBefore source is offset ++ bytesAt is offset <+: bytes source is := by
  have hall : bytesBefore source is (offset + 1) <+: bytes source is :=
    isPrefix_bytesBefore (b := source.size + 1) (by omega)
  refine List.IsPrefix.trans ?_ hall
  rw [bytesBefore_succ, bytesOf, ← List.append_assoc]
  exact List.prefix_append _ _

/-- Between two offsets where nothing is put the text is there as it was. -/
theorem bytesBefore_of_clear (hclear : Clear is a b) (hab : a < b) (hb : b ≤ source.size) :
    bytesBefore source is b = bytesBefore source is a ++ bytesAt is a ++ (source.extract a b).data.toList := by
  have hlength : source.data.toList.length = source.size := rfl
  have hnone : ∀ offset, a < offset → offset < b → bytesAt is offset = [] := by
    intro offset hfirst hlast
    unfold bytesAt
    rw [List.filter_eq_nil_iff.mpr fun i hi => ?_, List.flatMap_nil]
    rw [beq_iff_eq]
    rcases hclear i hi with h | h <;> omega
  have hstretch : ∀ n, a + n < b → bytesBefore source is (a + n + 1) =
      bytesBefore source is a ++ bytesAt is a ++ (source.data.toList.drop a).take (n + 1) := by
    intro n
    induction n with
    | zero =>
      intro _
      rw [bytesBefore_succ, bytesOf, Nat.add_zero, List.take_one, List.head?_drop, List.append_assoc]
    | succ n ih =>
      intro h
      rw [bytesBefore_succ, bytesOf, hnone _ (by omega) h, List.nil_append, ← Nat.add_assoc, ih (by omega),
        List.take_add_one (i := n + 1), List.getElem?_drop, ← List.append_assoc]
      rfl
  obtain ⟨n, rfl⟩ := Nat.exists_eq_add_of_lt hab
  rw [hstretch n (by omega), Edit.toList_extract]
  congr 2
  omega

/-- What is put in front of the second offset is no part of the stretch. -/
theorem bytesBefore_at_of_clear (hclear : ∀ i ∈ is, i.1 ≤ a ∨ b < i.1) (hab : a ≤ b) (hb : b ≤ source.size) :
    bytesBefore source is b ++ bytesAt is b =
      bytesBefore source is a ++ bytesAt is a ++ (source.extract a b).data.toList := by
  rcases hab.lt_or_eq with hlt | rfl
  · have hnone : bytesAt is b = [] := by
      unfold bytesAt
      rw [List.filter_eq_nil_iff.mpr fun i hi => ?_, List.flatMap_nil]
      rw [beq_iff_eq]
      rcases hclear i hi with h | h <;> omega
    rw [bytesBefore_of_clear (fun i hi => (hclear i hi).imp_right Nat.le_of_lt) hlt hb, hnone, List.append_nil]
  · rw [ByteArray.extract_eq_empty_iff.mpr (by omega)]
    exact (List.append_nil _).symm

theorem movedStop_le (hab : a ≤ b) : movedStop is a ≤ movedStart is b := by
  have hle : sizeAt is (· < a) ≤ sizeAt is (· ≤ b) := by
    induction is with
    | nil => exact Nat.le_refl _
    | cons i is ih =>
      rw [sizeAt_cons, sizeAt_cons]
      refine Nat.add_le_add ?_ ih
      split
      · rename_i hlt
        rw [if_pos (decide_eq_true (by have := of_decide_eq_true hlt; omega))]
      · exact Nat.zero_le _
  unfold movedStop movedStart
  omega

/-- A stretch in which nothing is put is there as it was. -/
theorem extract_made (hinside : ∀ i ∈ is, i.1 ≤ source.size) (hclear : Clear is a b) (hb : b ≤ source.size) :
    (made source is).extract (movedStart is a) (movedStop is b) = source.extract a b := by
  rw [ByteArray.ext_iff, ← Array.toList_inj]
  rcases Nat.lt_or_ge a b with hab | hba
  · have hstretch := bytesBefore_of_clear hclear hab hb
    obtain ⟨behind, hbehind⟩ := isPrefix_bytes is hb
    have hstart := length_bytesBefore_at is (show a ≤ source.size by omega)
    have hstop : movedStop is b - movedStart is a = (source.extract a b).data.toList.length := by
      rw [← length_bytesBefore hb, hstretch, List.length_append, hstart, Nat.add_sub_cancel_left]
    rw [Edit.toList_extract, toList_made hinside, ← hbehind, hstretch, List.append_assoc, List.append_assoc, hstop,
      ← hstart, List.drop_left, List.take_left]
  · have hempty : ∀ (bytes : ByteArray) (first last : Nat), last ≤ first →
        (bytes.extract first last).data.toList = [] := by
      intro bytes first last hle
      rw [Edit.toList_extract, Nat.sub_eq_zero_of_le hle, List.take_zero]
    rw [hempty _ _ _ (movedStop_le hba), hempty _ _ _ hba]

theorem movedStart_le_size (hinside : ∀ i ∈ is, i.1 ≤ source.size) (h : offset ≤ source.size) :
    movedStart is offset ≤ (made source is).size := by
  rw [← length_bytesBefore_at is h]
  change _ ≤ (made source is).data.toList.length
  rw [toList_made hinside]
  exact (isPrefix_bytes is h).length_le

theorem extract_made_zero (hinside : ∀ i ∈ is, i.1 ≤ source.size) (h : offset ≤ source.size) :
    ((made source is).extract 0 (movedStart is offset)).data.toList =
      bytesBefore source is offset ++ bytesAt is offset := by
  obtain ⟨behind, hbehind⟩ := isPrefix_bytes is h
  rw [Edit.toList_extract, toList_made hinside, ← hbehind, List.drop_zero, Nat.sub_zero,
    ← length_bytesBefore_at is h, List.take_left]

end Insertion

end TestMigration
