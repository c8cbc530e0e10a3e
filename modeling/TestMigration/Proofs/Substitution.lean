import TestMigration.Proofs.Disjoint
import TestMigration.Proofs.Sights

/-! Two ways to put texts in the place of nodes. The text of a node with some nodes in it replaced is put
together on the spot, from one replacement to the next; a block records the same replacements, and its
commit puts the whole text together. Both come to the same, in whatever order the replacements are given. -/

namespace TestMigration

open Script (Node Place)

namespace Handle

variable {d : Document} {outer : Node} {cursor turn : Nat} {rs : List (Node × String)} {bytes : ByteArray}
  {e : Failure}

/-! ## Pieces put together on the spot -/

theorem substituted_error (h : substituted d outer cursor rs = .error e) :
    e = .transformation "Replacement range is outside the node or overlaps another" := by
  induction rs generalizing cursor with
  | nil => cases h
  | cons r rest ih =>
    unfold substituted at h
    split at h
    · cases htail : substituted d outer r.1.stop rest with
      | error e' =>
        rw [htail] at h
        cases h
        exact ih htail
      | ok tail =>
        rw [htail] at h
        cases h
    · cases h
      rfl

/-- The replacements can be made from the cursor on: each within the node and behind the one before it. -/
theorem substituted_ok_iff (hwide : ∀ r ∈ rs, r.1.start < r.1.stop) :
    (∃ bytes, substituted d outer cursor rs = .ok bytes) ↔
      (∀ r ∈ rs, outer.covers r.1 = true) ∧ (∀ r ∈ rs, cursor ≤ r.1.start) ∧
        rs.Pairwise fun a b => a.1.stop ≤ b.1.start := by
  induction rs generalizing cursor with
  | nil => simp [substituted]
  | cons r rest ih =>
    obtain ⟨hr, hrest⟩ := List.forall_mem_cons.mp hwide
    have htail := @ih r.1.stop hrest
    unfold substituted
    rw [List.forall_mem_cons, List.forall_mem_cons, List.pairwise_cons]
    constructor
    · rintro ⟨bytes, hbytes⟩
      split at hbytes
      · rename_i hfits
        obtain ⟨hcovers, hcursor⟩ := Bool.and_eq_true_iff.mp hfits
        have hcursor := of_decide_eq_true hcursor
        cases hmore : substituted d outer r.1.stop rest with
        | error e =>
          rw [hmore] at hbytes
          cases hbytes
        | ok tail =>
          obtain ⟨hall, hbehind, hpairs⟩ := htail.mp ⟨tail, hmore⟩
          exact ⟨⟨hcovers, hall⟩, ⟨hcursor, fun r' hr' => hcursor.trans (hr.le.trans (hbehind r' hr'))⟩,
            hbehind, hpairs⟩
      · cases hbytes
    · rintro ⟨⟨hcovers, hall⟩, ⟨hcursor, -⟩, hbehind, hpairs⟩
      obtain ⟨tail, hmore⟩ := htail.mpr ⟨hall, hbehind, hpairs⟩
      rw [if_pos (Bool.and_eq_true_iff.mpr ⟨hcovers, decide_eq_true hcursor⟩), hmore]
      exact ⟨_, rfl⟩

/-- What is put together on the spot is what a splice makes of the node's bytes. -/
theorem splice_of_substituted (h : substituted d outer cursor rs = .ok bytes)
    (hcursor : cursor ≤ outer.stop) (hstop : outer.stop ≤ d.source.size) :
    Edit.splice d.source cursor (Edit.numbered turn (rs.map fun r => (r.1.range, r.2))) =
      bytes ++ d.source.extract outer.stop d.source.size := by
  induction rs generalizing cursor turn bytes with
  | nil =>
    cases h
    exact ByteArray.extract_eq_extract_append_extract outer.stop hcursor hstop
  | cons r rest ih =>
    unfold substituted at h
    split at h
    · rename_i hfits
      have hcovers := (Bool.and_eq_true_iff.mp (Bool.and_eq_true_iff.mp hfits).1).2
      cases htail : substituted d outer r.1.stop rest with
      | error e =>
        rw [htail] at h
        cases h
      | ok tail =>
        rw [htail] at h
        cases h
        have hrest := @ih r.1.stop (turn + 1) tail htail (of_decide_eq_true hcovers)
        rw [List.map_cons, Edit.numbered, Edit.splice]
        change _ ++ _ ++ Edit.splice d.source r.1.stop _ = _
        rw [hrest, ByteArray.append_assoc, ByteArray.append_assoc, ByteArray.append_assoc]
        rfl
    · cases h

end Handle

namespace Edit

variable {rs ordered : List Replacement}

/-- Of wide ranges there is one order in which each comes behind the one before it, and edits that are put
in order are in that one. -/
theorem makes_behind (hwide : ∀ r ∈ rs, r.1.1 < r.1.2) (hperm : ordered.Perm rs)
    (hbehind : ordered.Pairwise fun a b => a.1.2 ≤ b.1.1) : Makes (sorted (numbered 0 rs)) ordered := by
  have hputs : ∀ (rs : List Replacement) (turn : Nat), (numbered turn rs).map (fun e => (e.range, e.text)) =
      rs.map fun r => (r.1, r.2.toUTF8) := by
    intro rs
    induction rs with
    | nil => exact fun _ => rfl
    | cons r rest ih =>
      intro turn
      rw [numbered, List.map_cons, List.map_cons, ih]
      rfl
  have hapart : (rs.map Prod.fst).Pairwise Stretch.Apart := by
    refine List.pairwise_map.mpr ((hperm.pairwise_iff fun {_ _} h => Stretch.Apart.symm h).mp ?_)
    exact hbehind.imp .inl
  have hsame : (sorted (numbered 0 rs)).map (fun e => (e.range, e.text)) =
      ordered.map fun r => (r.1, r.2.toUTF8) := by
    have hmoved : ((sorted (numbered 0 rs)).map fun e => (e.range, e.text)).Perm
        (ordered.map fun r => (r.1, r.2.toUTF8)) := by
      refine ((sorted_perm _).map _).trans ?_
      rw [hputs]
      exact (hperm.map _).symm
    have hfirst : ((sorted (numbered 0 rs)).map fun e => (e.range, e.text)).Pairwise
        fun a b => a.1.2 ≤ b.1.1 :=
      List.pairwise_map.mpr (sorted_behind (Batch.holding_wide 0 hwide) (Batch.holding_apart 0 hapart))
    have hsecond : (ordered.map fun r => (r.1, r.2.toUTF8)).Pairwise fun a b => a.1.2 ≤ b.1.1 :=
      List.pairwise_map.mpr hbehind
    refine List.Perm.eq_of_pairwise (fun a b ha hb hab hba => ?_) hfirst hsecond hmoved
    obtain ⟨r, hr, rfl⟩ := List.mem_map.mp (hmoved.subset ha)
    obtain ⟨r', hr', rfl⟩ := List.mem_map.mp hb
    have hlt := hwide r (hperm.subset hr)
    have hlt' := hwide r' (hperm.subset hr')
    dsimp only at hab hba
    omega
  have hall := List.forall₂_map_left_iff.mp (List.forall₂_map_right_iff.mp (List.forall₂_eq_eq_eq.symm ▸ hsame))
  refine hall.imp fun e r her => ?_
  obtain ⟨hrange, htext⟩ := Prod.mk.inj her
  exact ⟨congrArg Prod.fst hrange, congrArg Prod.snd hrange, htext⟩

end Edit

namespace Document

variable {d : Document} {p : Place} {rs : List (Place × String)} {text : String}

/-- The replacements, each by its range. -/
def filling (rs : List (Place × String)) : List Replacement := rs.map fun r => (r.1.node.range, r.2)

/-- The nodes are replaced, one after the other. -/
def replaceEach (d : Document) (rs : List (Place × String)) : Editing PUnit :=
  rs.forM fun r => (d.handle r.1).replaceWith (.ofString r.2)

/-- The text of the node with the nodes in it replaced. -/
def textWith (d : Document) (p : Place) (rs : List (Place × String)) : Except Failure String :=
  (d.handle p).textWith (rs.map fun r => (d.handle r.1, r.2)) d

/-- The whole text with another one in the place of the node. -/
def rewordedAt (d : Document) (p : Place) (text : String) : ByteArray :=
  d.source.extract 0 p.node.start ++ text.toUTF8 ++ d.source.extract p.node.stop d.source.size

/-- What the text of a node with some nodes in it replaced has to do with a block of the replacements. -/
structure SubstitutesAlike (d : Document) (p : Place) (rs : List (Place × String)) : Prop where
  /-- It is refused if and only if one of the nodes is not in the node, or two of them overlap. -/
  refused : (∃ e, d.textWith p rs = .error e) ↔
    (∃ r ∈ rs, ¬(p.node.start ≤ r.1.node.start ∧ r.1.node.stop ≤ p.node.stop)) ∨
      ¬ rs.Pairwise fun a b => a.1.node.range.Apart b.1.node.range
  reason : ∀ e, d.textWith p rs = .error e →
    e = .transformation "Replacement range is outside the node or overlaps another"
  /-- Otherwise it is what the block puts in the place of the node, if that can be read. -/
  block : ∀ text, d.textWith p rs = .ok text → match batched (d.replaceEach rs) d with
    | .ok (_, b) d' => b.deferred = [] ∧ b.applied = rs.length ∧
        d'.slice p.node.start (p.node.start + text.utf8ByteSize) = .ok text ∧
        if rs = [] then d' = d else d'.source = d.rewordedAt p text
    | .error e d' => d' = d ∧ ∃ place snippet, d.read (d.rewordedAt p text) = .error place ∧
        e = .invalidEdit place snippet

/-- The replacements in the order in which the text of a node takes them. -/
def ordered (rs : List (Place × String)) : List (Node × String) :=
  (rs.map fun r => (r.1.node, r.2)).mergeSort fun a b => a.1.start ≤ b.1.start

theorem textWith_eq : d.textWith p rs =
    (Handle.substituted d p.node p.node.start (ordered rs)).bind decode := by
  unfold textWith Handle.textWith
  refine look_bind_eq Handle.node_handle (look_bind_eq (mapM_eq (g := fun r => (r.1.place.node, r.2)) ?_) ?_)
  · intro r hr
    obtain ⟨r, -, rfl⟩ := List.mem_map.mp hr
    exact look_bind_eq Handle.node_handle rfl
  · rw [List.map_map]
    rfl

theorem perm_ordered (rs : List (Place × String)) :
    (ordered rs).Perm (rs.map fun r => (r.1.node, r.2)) := List.mergeSort_perm _ _

theorem forall_ordered {P : Node × String → Prop} :
    (∀ r ∈ ordered rs, P r) ↔ ∀ r ∈ rs, P (r.1.node, r.2) := by
  simp only [(perm_ordered rs).mem_iff, List.forall_mem_map]

/-- In that order, nodes that do not overlap come one behind the other. -/
theorem ordered_behind_iff (hwide : ∀ r ∈ rs, r.1.node.start < r.1.node.stop) :
    (ordered rs).Pairwise (fun a b => a.1.stop ≤ b.1.start) ↔
      rs.Pairwise fun a b => a.1.node.range.Apart b.1.node.range := by
  have hsymm : ∀ {a b : Node × String}, a.1.range.Apart b.1.range → b.1.range.Apart a.1.range :=
    fun h => h.symm
  have hmoved : (ordered rs).Pairwise (fun a b => a.1.range.Apart b.1.range) ↔
      rs.Pairwise fun a b => a.1.node.range.Apart b.1.node.range := by
    rw [(perm_ordered rs).pairwise_iff hsymm, List.pairwise_map]
  rw [← hmoved]
  refine ⟨fun h => h.imp .inl, fun h => ?_⟩
  have hstarts : (ordered rs).Pairwise fun a b => a.1.start ≤ b.1.start := by
    refine (List.pairwise_mergeSort ?_ ?_ _).imp of_decide_eq_true
    · exact fun a b c hab hbc => decide_eq_true ((of_decide_eq_true hab).trans (of_decide_eq_true hbc))
    · exact fun a b => by simpa using Nat.le_total a.1.start b.1.start
  refine (h.and hstarts).imp_of_mem fun {a b} _ hb hab => ?_
  have hlt := (forall_ordered (P := fun r => r.1.start < r.1.stop)).mpr hwide b hb
  obtain ⟨hapart, hstart⟩ := hab
  unfold Stretch.Apart Node.range at hapart
  dsimp only at hapart hstart ⊢
  omega

/-- The nodes stand in the tree, and none of them is empty. -/
def Filled (d : Document) (rs : List (Place × String)) : Prop :=
  ∀ r ∈ rs, r.1.Within d.root ∧ r.1.node.start < r.1.node.stop

theorem textWith_ok_iff_substituted : d.textWith p rs = .ok text ↔
    Handle.substituted d p.node p.node.start (ordered rs) = .ok text.toUTF8 := by
  rw [textWith_eq]
  cases hpieces : Handle.substituted d p.node p.node.start (ordered rs) with
  | error e => exact ⟨nofun, nofun⟩
  | ok bytes => exact Conversion.decode_ok.trans ⟨congrArg _, Except.ok.inj⟩

/-- Pieces of a text that are put together are a text. -/
theorem exists_text_of_substituted (hd : d.Intact) (hp : p.Within d.root) (hrs : d.Filled rs) {bytes : ByteArray}
    (h : Handle.substituted d p.node p.node.start (ordered rs) = .ok bytes) :
    ∃ text, d.textWith p rs = .ok text := by
  have hcuts : ∀ r ∈ ordered rs, d.Cuts r.1.start ∧ d.Cuts r.1.stop :=
    forall_ordered.mpr fun r hr => ⟨hd.cuts_start (hrs r hr).1, hd.cuts_stop (hrs r hr).1⟩
  have hvalid : bytes.IsValidUTF8 :=
    ((Handle.finds_substituted (hd.cuts_stop hp) (hd.cuts_start hp) hcuts) hd).1 bytes h
  exact ⟨⟨bytes, hvalid⟩, textWith_ok_iff_substituted.mpr h⟩

theorem textWith_ok_iff (hd : d.Intact) (hp : p.Within d.root) (hrs : d.Filled rs) :
    (∃ text, d.textWith p rs = .ok text) ↔
      (∀ r ∈ rs, p.node.start ≤ r.1.node.start ∧ r.1.node.stop ≤ p.node.stop) ∧
        rs.Pairwise fun a b => a.1.node.range.Apart b.1.node.range := by
  have hwide : ∀ r ∈ ordered rs, r.1.start < r.1.stop := forall_ordered.mpr fun r hr => (hrs r hr).2
  have hcovers : (∀ r ∈ ordered rs, p.node.covers r.1 = true) ↔
      ∀ r ∈ rs, p.node.start ≤ r.1.node.start ∧ r.1.node.stop ≤ p.node.stop := by
    simp only [forall_ordered, Node.covers, Bool.and_eq_true, decide_eq_true_eq]
  have hpieces : (∃ text, d.textWith p rs = .ok text) ↔
      ∃ bytes, Handle.substituted d p.node p.node.start (ordered rs) = .ok bytes :=
    ⟨fun ⟨text, h⟩ => ⟨_, textWith_ok_iff_substituted.mp h⟩,
      fun ⟨bytes, h⟩ => exists_text_of_substituted hd hp hrs h⟩
  rw [hpieces, Handle.substituted_ok_iff hwide, hcovers, ordered_behind_iff fun r hr => (hrs r hr).2,
    forall_ordered]
  exact ⟨fun h => ⟨h.1, h.2.2⟩, fun h => ⟨h.1, fun r hr => (h.1 r hr).1, h.2⟩⟩

/-! ## Put in the place of the node by a block -/

theorem made_replaceEach (d : Document) (rs : List (Place × String)) : Made (d.replaceEach rs) :=
  made_stepwise.forM (f := fun r : Place × String => (d.handle r.1).replaceWith (.ofString r.2))
    (fun r => (d.handle r.1).made_replaceWith _) rs

theorem records_replaceEach (before : List Replacement) (hinside : ∀ r ∈ rs, d.Holds r.1)
    (hdistinct : (before.map Prod.fst ++ (filling rs).map Prod.fst).Nodup) :
    Records (d.replaceEach rs) d (.holding d.generation before) ⟨⟩
      (.holding d.generation (before ++ filling rs)) := by
  induction rs generalizing before with
  | nil =>
    rw [filling, List.map_nil, List.append_nil]
    exact records_pure _
  | cons r rest ih =>
    obtain ⟨hr, hrest⟩ := List.forall_mem_cons.mp hinside
    have hfresh : r.1.node.range ∉ before.map Prod.fst := fun hmem =>
      (List.nodup_append.mp hdistinct).2.2 _ hmem _ List.mem_cons_self rfl
    have hmore : ((before ++ [(r.1.node.range, r.2)]).map Prod.fst ++ (filling rest).map Prod.fst).Nodup := by
      rw [List.map_append, List.append_assoc]
      exact hdistinct
    have hothers := ih _ hrest hmore
    rw [List.append_assoc] at hothers
    exact (records_replaceWith_holding hr hfresh).andThen hothers

theorem filling_wide (hrs : ∀ r ∈ rs, r.1.node.start < r.1.node.stop) : ∀ r ∈ filling rs, r.1.1 < r.1.2 :=
  List.forall_mem_map.mpr hrs

theorem filling_apart (hapart : rs.Pairwise fun a b => a.1.node.range.Apart b.1.node.range) :
    ((filling rs).map Prod.fst).Pairwise Stretch.Apart := List.pairwise_map.mpr (List.pairwise_map.mpr hapart)

/-- In a block the node's text becomes the one that is put together on the spot. -/
theorem outcome_filling (hp : d.Holds p) (hrs : ∀ r ∈ rs, r.1.node.start < r.1.node.stop)
    (hapart : rs.Pairwise fun a b => a.1.node.range.Apart b.1.node.range)
    (htext : d.textWith p rs = .ok text) (generation : Nat) :
    (Batch.holding generation (filling rs)).settled = (Edit.sorted (Edit.numbered 0 (filling rs)), []) ∧
      (Batch.holding generation (filling rs)).outcome d.source = d.rewordedAt p text := by
  have hwide := filling_wide hrs
  have hsettled := Batch.settled_holding generation hwide (filling_apart hapart)
  refine ⟨hsettled, ?_⟩
  have hmakes : Edit.Makes (Edit.sorted (Edit.numbered 0 (filling rs)))
      ((ordered rs).map fun r => (r.1.range, r.2)) := by
    refine Edit.makes_behind hwide ?_ (List.pairwise_map.mpr ((ordered_behind_iff hrs).mpr hapart))
    refine ((perm_ordered rs).map _).trans ?_
    rw [List.map_map]
    exact .refl _
  have hpieces := textWith_ok_iff_substituted.mp htext
  have hwide' : ∀ r ∈ ordered rs, r.1.start < r.1.stop := forall_ordered.mpr hrs
  have hbehind : ∀ e ∈ Edit.numbered 0 ((ordered rs).map fun r => (r.1.range, r.2)),
      p.node.start ≤ e.start := by
    intro e he
    obtain ⟨r, hr, hstart, -⟩ := Edit.mem_numbered he
    obtain ⟨r, hmem, rfl⟩ := List.mem_map.mp hr
    rw [hstart]
    exact ((Handle.substituted_ok_iff hwide').mp ⟨_, hpieces⟩).2.1 r hmem
  calc (Batch.holding generation (filling rs)).outcome d.source
      = Edit.splice d.source 0 (Edit.sorted (Edit.numbered 0 (filling rs))) := by
        unfold Batch.outcome
        rw [hsettled]
    _ = Edit.splice d.source 0 (Edit.numbered 0 ((ordered rs).map fun r => (r.1.range, r.2))) :=
        Edit.splice_of_makes hmakes
    _ = d.source.extract 0 p.node.start ++
          Edit.splice d.source p.node.start (Edit.numbered 0 ((ordered rs).map fun r => (r.1.range, r.2))) :=
        Edit.splice_from (Nat.zero_le _) (hp.1.trans hp.2) hbehind
    _ = d.rewordedAt p text := by
        rw [Handle.splice_of_substituted hpieces hp.1 hp.2, ← ByteArray.append_assoc]
        rfl

theorem extract_rewordedAt (hp : p.node.start ≤ d.source.size) :
    (d.rewordedAt p text).extract p.node.start (p.node.start + text.utf8ByteSize) = text.toUTF8 := by
  have hsize : p.node.start = (d.source.extract 0 p.node.start).size := by
    rw [ByteArray.size_extract]
    omega
  unfold rewordedAt
  rw [ByteArray.append_assoc]
  conv_lhs => rw [← Nat.add_zero p.node.start, Nat.add_assoc, Nat.zero_add]
  rw [ByteArray.extract_append_size_add' (by simpa using hsize)]
  exact ByteArray.extract_append_eq_left rfl

/-- Without replacements it is the text of the node. -/
theorem slice_of_textWith_nil (h : d.textWith p [] = .ok text) :
    d.slice p.node.start (p.node.start + text.utf8ByteSize) = .ok text := by
  have hpiece : d.source.extract p.node.start p.node.stop = text.toUTF8 := by
    have hnone : ordered [] = [] := List.mergeSort_nil
    have hpieces := textWith_ok_iff_substituted.mp h
    rw [hnone] at hpieces
    exact Except.ok.inj hpieces
  have hsize : text.utf8ByteSize = min p.node.stop d.source.size - p.node.start := by
    rw [← ByteArray.size_extract, hpiece]
    rfl
  refine Conversion.decode_ok.mpr (Eq.trans (ByteArray.ext (Array.ext' ?_)) hpiece)
  rw [Edit.toList_extract, Edit.toList_extract, List.take_eq_take_iff, List.length_drop, hsize,
    Array.length_toList, ByteArray.size_data]
  omega

theorem reason_of_textWith (hd : d.Intact) (hp : p.Within d.root) (hrs : d.Filled rs) {e : Failure}
    (h : d.textWith p rs = .error e) :
    e = .transformation "Replacement range is outside the node or overlaps another" := by
  rw [textWith_eq] at h
  cases hpieces : Handle.substituted d p.node p.node.start (ordered rs) with
  | error e' =>
    rw [hpieces] at h
    cases h
    exact Handle.substituted_error hpieces
  | ok bytes =>
    -- what is put together of texts can be decoded
    obtain ⟨text, htext⟩ := exists_text_of_substituted hd hp hrs hpieces
    rw [textWith_eq] at htext
    cases h.symm.trans htext

theorem records_filling (hstop : ∀ r ∈ rs, r.1.node.stop ≤ d.source.size)
    (hrs : ∀ r ∈ rs, r.1.node.start < r.1.node.stop)
    (hapart : rs.Pairwise fun a b => a.1.node.range.Apart b.1.node.range) :
    Records (d.replaceEach rs) d (.open' d.generation) ⟨⟩ (.holding d.generation (filling rs)) :=
  records_replaceEach [] (fun r hr => ⟨(hrs r hr).le, hstop r hr⟩)
    (Stretch.nodup_of_apart (List.forall_mem_map.mpr (filling_wide hrs)) (filling_apart hapart))

/-- The text of a node with some nodes in it replaced agrees with a block of the replacements, in whatever
order they are given: it is refused where the nodes do not fit into one another, and where they do it is
what the block leaves in the place of the node. -/
theorem substitution_agrees (hd : d.Intact) (closed : d.batch = none) (hp : p.Within d.root)
    (hrs : d.Filled rs) : d.SubstitutesAlike p rs := by
  obtain ⟨source, hsource⟩ := hd.isText
  have hstop : ∀ q : Place, q.Within d.root → q.node.stop ≤ d.source.size := by
    intro q hq
    rw [hsource]
    exact (hd.cuts_stop hq source hsource).le_size
  refine ⟨?_, ?_, ?_⟩
  · have hnot : (∃ e, d.textWith p rs = .error e) ↔ ¬ ∃ text, d.textWith p rs = .ok text := by
      cases d.textWith p rs with
      | error e => simp
      | ok text => simp
    rw [hnot, textWith_ok_iff hd hp hrs, not_and_or]
    simp only [not_forall, exists_prop]
  · exact fun e he => reason_of_textWith hd hp hrs he
  · intro text htext
    obtain ⟨hcovers, hapart⟩ := (textWith_ok_iff hd hp hrs).mp ⟨text, htext⟩
    have hrecords := records_filling (fun r hr => hstop r.1 (hrs r hr).1) (fun r hr => (hrs r hr).2) hapart
    have hblock := batched_of_records (made_replaceEach d rs) closed hrecords
    cases rs with
    | nil =>
      rw [batched_of_nothing (made_replaceEach d []) closed hrecords rfl]
      exact ⟨rfl, rfl, slice_of_textWith_nil htext, rfl⟩
    | cons r rest =>
    obtain ⟨hfirst, hlast⟩ := hcovers r List.mem_cons_self
    have hwidth := (hrs r List.mem_cons_self).2
    have hholds : d.Holds p := ⟨by omega, hstop p hp⟩
    obtain ⟨hsettled, houtcome⟩ := outcome_filling hholds (fun r hr => (hrs r hr).2) hapart htext d.generation
    rw [houtcome] at hblock
    rcases hblock with ⟨hnone, -⟩ | ⟨-, root, hread, hrun⟩ | ⟨-, place, snippet, hread, hrun⟩
    · cases hnone
    · rw [hrun]
      refine ⟨congrArg Prod.snd hsettled, ?_, ?_, ?_⟩
      · change (Batch.settled _).1.length = _
        rw [hsettled, (Edit.sorted_perm _).length_eq, Edit.length_numbered, filling, List.length_map]
      · exact Conversion.decode_ok.mpr (extract_rewordedAt (hholds.1.trans hholds.2))
      · rw [if_neg (List.cons_ne_nil _ _)]
        rfl
    · rw [hrun]
      exact ⟨rfl, place, snippet, hread, rfl⟩

/-- The names in a script, the last one first, each with what is to be put in its place. -/
def namesBackward (d : Document) (texts : List String) : List (Place × String) :=
  (d.places.filter (·.node.kind == .identifier)).reverse.zip texts

/-- All names of a call, from the last one to the first. -/
theorem substitution_agrees_backward : ∃ d p text, ofString none "foo(a, bar(b), c);\n" = .ok d ∧
    d.places.find? (·.node.kind == .callExpression) = some p ∧
    d.SubstitutesAlike p (d.namesBackward ["[3]", "b + 1", "qux", "\u00e9", "baz"]) ∧
    d.textWith p (d.namesBackward ["[3]", "b + 1", "qux", "\u00e9", "baz"]) = .ok text ∧
    d.rewordedAt p text = "baz(\u00e9, qux(b + 1), [3]);\n".toUTF8 := by
  have hchecks : (ofString none "foo(a, bar(b), c);\n").toOption.map (fun d =>
      let rs := d.namesBackward ["[3]", "b + 1", "qux", "\u00e9", "baz"]
      (rs.length, decide (∀ r ∈ rs, r.1.node.start < r.1.node.stop),
        decide (rs.Pairwise fun a b => a.1.node.stop ≤ b.1.node.start ∨ b.1.node.stop ≤ a.1.node.start),
        (d.places.find? (·.node.kind == .callExpression)).map fun p =>
          decide (∀ r ∈ rs, p.node.start ≤ r.1.node.start ∧ r.1.node.stop ≤ p.node.stop),
        match batched (d.replaceEach rs) d with
        | .ok _ d' => spelledBy ["baz(\u00e9, qux(b + 1), [3]);\n"] d'.source
        | .error _ _ => false)) = some (5, true, true, some true, true) := by
    decide +kernel
  obtain ⟨d, hd, hobserved⟩ := exists_of_toOption_map hchecks
  simp only [Prod.mk.injEq, decide_eq_true_eq] at hobserved
  obtain ⟨hlength, hwide, hapart, hcall, hspelled⟩ := hobserved
  obtain ⟨p, hp, hcovers⟩ := Option.map_eq_some_iff.mp hcall
  have hintact : d.Intact := Intact.ofBytes (keepsCharacters_parse _) hd
  have closed : d.batch = none := (sound_of_ofBytes hd).2
  have hwithin := within_of_mem_places (List.mem_of_find?_eq_some hp)
  have hfilled : d.Filled (d.namesBackward ["[3]", "b + 1", "qux", "\u00e9", "baz"]) := by
    refine fun r hr => ⟨within_of_mem_places ?_, hwide r hr⟩
    exact List.mem_of_mem_filter (List.mem_reverse.mp (List.of_mem_zip hr).1)
  obtain ⟨text, htext⟩ := (textWith_ok_iff hintact hwithin hfilled).mpr ⟨of_decide_eq_true hcovers, hapart⟩
  have hagrees := substitution_agrees hintact closed hwithin hfilled
  refine ⟨d, p, text, hd, hp, hagrees, htext, ?_⟩
  have hblock := hagrees.block text htext
  split at hspelled
  · rename_i d' hrun
    rw [hrun] at hblock
    obtain ⟨-, -, -, hreworded⟩ := hblock
    rw [if_neg (List.ne_nil_of_length_eq_add_one hlength)] at hreworded
    exact hreworded.symm.trans (eq_of_spelledBy hspelled)
  · cases hspelled

end Document

end TestMigration
