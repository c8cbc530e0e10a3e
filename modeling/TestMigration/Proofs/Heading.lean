import TestMigration.Proofs.Extents

/-! Lines put at the top of a text, while other parts of it go. In one batch the lines come first, the
latest of them uppermost, and then the removals; of removals within one another the outer one is made.
So the new text is the old one up to the top, then the lines, then what is left of the rest. -/

namespace TestMigration

open Script (Node Place)

/-- The range ends before the other one begins, or it begins before that and covers it. -/
def Stretch.Clears (a b : Stretch) : Prop := a.2 ≤ b.1 ∨ a.1 < b.1 ∧ b.2 ≤ a.2

/-- The bytes from an offset on that are not gone. -/
def without (source : ByteArray) (gone : Nat → Prop) [DecidablePred gone] (first : Nat) : ByteArray :=
  ⟨(((List.range' first (source.size - first)).filter fun i => ¬ gone i).map source.get!).toArray⟩

/-- Lines, each with its line feed. -/
def lineText (lines : List String) : ByteArray := (String.join (lines.map (· ++ "\n"))).toUTF8

theorem Text.toString?_line (line : String) :
    (Text.ofString line ++ [Glyph.char '\n']).toString? = some (line ++ "\n") := by
  rw [← Text.toString?_ofString (line ++ "\n"), Text.ofString_append]
  rfl

namespace Edit

/-- Lines put ahead of everything at an offset, as a batch records them, counted from `turn` on. -/
def heading (offset : Nat) : Nat → List String → List Edit
  | _, [] => []
  | turn, line :: rest => ⟨offset, offset, (line ++ "\n").toUTF8, turn, true⟩ :: heading offset (turn + 1) rest

/-- Removals of ranges. -/
def removals (rs : List Stretch) : List Replacement := rs.map fun r => (r, "")

variable {offset turn cursor : Nat} {lines : List String} {rs : List Stretch} {e : Edit}
  {es later : List Edit} {source : ByteArray}

@[simp] theorem map_fst_removals : (removals rs).map Prod.fst = rs :=
  List.map_map.trans (List.map_id rs)

theorem removals_append (r : Stretch) : removals (rs ++ [r]) = removals rs ++ [(r, "")] := List.map_append

@[simp] theorem length_removals : (removals rs).length = rs.length := List.length_map _

@[simp] theorem length_heading : (heading offset turn lines).length = lines.length := by
  induction lines generalizing turn with
  | nil => rfl
  | cons line rest ih => rw [heading, List.length_cons, ih, List.length_cons]

theorem heading_append (more : List String) : heading offset turn (lines ++ more) =
    heading offset turn lines ++ heading offset (turn + lines.length) more := by
  induction lines generalizing turn with
  | nil => rfl
  | cons line rest ih =>
    rw [List.cons_append, heading, heading, ih, List.length_cons, Nat.add_assoc, Nat.add_comm 1]
    rfl

theorem mem_heading (h : e ∈ heading offset turn lines) : e.start = offset ∧ e.stop = offset ∧
    e.ahead = true ∧ turn ≤ e.turn ∧ ∃ line ∈ lines, e.text = (line ++ "\n").toUTF8 := by
  induction lines generalizing turn with
  | nil => cases h
  | cons line rest ih =>
    rcases List.mem_cons.mp h with rfl | h
    · exact ⟨rfl, rfl, rfl, Nat.le_refl _, line, List.mem_cons_self, rfl⟩
    · obtain ⟨hstart, hstop, hahead, hturn, line', hline', htext⟩ := ih h
      exact ⟨hstart, hstop, hahead, Nat.le_of_succ_le hturn, line', List.mem_cons_of_mem _ hline', htext⟩

theorem mem_removals {turn : Nat} (h : e ∈ numbered turn (removals rs)) :
    e.range ∈ rs ∧ e.text = ByteArray.empty := by
  obtain ⟨r, hr, hstart, hstop, htext⟩ := mem_numbered h
  obtain ⟨r, hmem, rfl⟩ := List.mem_map.mp hr
  rw [Edit.range, hstart, hstop]
  exact ⟨hmem, htext⟩

/-! ## The order of a batch -/

/-- An edit goes past those that it does not come before. -/
theorem place_append (h : ∀ a ∈ es, e.before a = false) : place e (es ++ later) = es ++ place e later := by
  induction es with
  | nil => rfl
  | cons a es ih =>
    obtain ⟨ha, hes⟩ := List.forall_mem_cons.mp h
    rw [List.cons_append, place, if_neg (by rw [ha]; exact Bool.false_ne_true), ih hes, List.cons_append]

/-- Of lines at one place the latest comes first. -/
theorem sorted_heading : sorted (heading offset turn lines) = (heading offset turn lines).reverse := by
  induction lines generalizing turn with
  | nil => rfl
  | cons line rest ih =>
    have hbehind : ∀ a ∈ (heading offset (turn + 1) rest).reverse,
        before ⟨offset, offset, (line ++ "\n").toUTF8, turn, true⟩ a = false := by
      intro a ha
      obtain ⟨hstart, hstop, hahead, hturn, -⟩ := mem_heading (List.mem_reverse.mp ha)
      unfold before isInsertion rank
      rw [hstart, hstop, hahead]
      simp only [bne_self_eq_false, Bool.false_eq_true, if_false, if_true, decide_eq_false_iff_not]
      omega
    rw [heading, sorted, ih, List.reverse_cons]
    conv_lhs => rw [← List.append_nil (heading offset (turn + 1) rest).reverse]
    exact place_append hbehind

/-- Lines at the top come before all that is removed behind it. -/
theorem sorted_headed {turn' : Nat} (hwide : ∀ r ∈ rs, r.1 < r.2) (hbehind : ∀ r ∈ rs, offset ≤ r.1)
    (hclears : rs.Pairwise Stretch.Clears) :
    sorted (numbered turn (removals rs) ++ heading offset turn' lines) =
      (heading offset turn' lines).reverse ++ numbered turn (removals rs) := by
  have hpast : ∀ (rs : List Stretch) (turn : Nat), (∀ r ∈ rs, r.1 < r.2) → (∀ r ∈ rs, offset ≤ r.1) →
      sorted (numbered turn (removals rs) ++ heading offset turn' lines) =
        (heading offset turn' lines).reverse ++ sorted (numbered turn (removals rs)) := by
    intro rs
    induction rs with
    | nil =>
      intro _ _ _
      exact sorted_heading.trans (List.append_nil _).symm
    | cons r rs ih =>
      intro turn hwide hbehind
      obtain ⟨hr, hwide⟩ := List.forall_mem_cons.mp hwide
      obtain ⟨hfirst, hbehind⟩ := List.forall_mem_cons.mp hbehind
      change place (ofReplacement turn (r, "")) (sorted (numbered (turn + 1) (removals rs) ++ _)) = _
      rw [ih (turn + 1) hwide hbehind]
      refine place_append fun a ha => ?_
      obtain ⟨hstart, hstop, -⟩ := mem_heading (List.mem_reverse.mp ha)
      unfold before
      split
      · exact decide_eq_false (by rw [hstart]; exact hfirst.not_gt)
      · -- both begin at the top, where insertions come first
        have hinsertion : a.isInsertion = true := isInsertion_iff.mpr (by rw [hstart, hstop])
        have hremoval : (ofReplacement turn (r, "")).isInsertion = false := beq_eq_false_iff_ne.mpr hr.ne
        rw [hinsertion, hremoval]
        rfl
  rw [hpast rs turn hwide hbehind, sorted_numbered]
  · intro r hr
    obtain ⟨r, hmem, rfl⟩ := List.mem_map.mp hr
    exact hwide r hmem
  · refine List.pairwise_map.mpr (hclears.imp_of_mem fun {a b} ha _ hab => ?_)
    have hlt := hwide a ha
    exact .inl (hab.elim hlt.trans_le (·.1))

/-- Lines at the top are all made. -/
theorem settle_heading (hcursor : cursor ≤ offset) (hes : ∀ e ∈ es, e.start = offset ∧ e.stop = offset)
    (hlater : ∀ e ∈ later, offset ≤ e.start) :
    settle cursor (es ++ later) = (es ++ (settle offset later).1, (settle offset later).2) := by
  induction es generalizing cursor with
  | nil => exact settle_behind (fun e he => hcursor.trans (hlater e he)) hlater
  | cons e es ih =>
    obtain ⟨⟨hstart, hstop⟩, hes⟩ := List.forall_mem_cons.mp hes
    rw [List.cons_append, settle, if_neg (by rw [hstart]; exact hcursor.not_gt), hstop,
      ih (Nat.le_refl _) hes]
    rfl

/-! ## The text -/

theorem splice_from (hcursor : cursor ≤ offset) (hsize : offset ≤ source.size)
    (hes : ∀ e ∈ es, offset ≤ e.start) :
    splice source cursor es = source.extract cursor offset ++ splice source offset es := by
  cases es with
  | nil => exact ByteArray.extract_eq_extract_append_extract offset hcursor hsize
  | cons e es =>
    rw [splice, splice, ByteArray.extract_eq_extract_append_extract offset hcursor
      (hes e List.mem_cons_self), ByteArray.append_assoc, ByteArray.append_assoc, ByteArray.append_assoc]

theorem lineText_cons (line : String) (rest : List String) :
    lineText (line :: rest) = (line ++ "\n").toUTF8 ++ lineText rest := by
  unfold lineText
  rw [List.map_cons, String.join_cons]
  exact String.toByteArray_append

theorem splice_heading (hcursor : cursor ≤ offset) (hsize : offset ≤ source.size)
    (hlater : ∀ e ∈ later, offset ≤ e.start)
    (hes : List.Forall₂ (fun e line => e.start = offset ∧ e.stop = offset ∧ e.text = (line ++ "\n").toUTF8)
      es lines) :
    splice source cursor (es ++ later) =
      source.extract cursor offset ++ lineText lines ++ splice source offset later := by
  induction hes generalizing cursor with
  | nil =>
    rw [show lineText [] = ByteArray.empty from rfl, ByteArray.append_empty]
    exact splice_from hcursor hsize hlater
  | @cons e line es lines hline _ ih =>
    obtain ⟨hstart, hstop, htext⟩ := hline
    have hnone : source.extract offset offset = ByteArray.empty :=
      ByteArray.extract_eq_empty_iff.mpr (by omega)
    rw [List.cons_append, splice, hstart, hstop, htext, ih (Nat.le_refl _), hnone, ByteArray.empty_append,
      lineText_cons, ByteArray.append_assoc, ByteArray.append_assoc, ByteArray.append_assoc]

theorem forall₂_heading : List.Forall₂
    (fun e line => e.start = offset ∧ e.stop = offset ∧ e.text = (line ++ "\n").toUTF8)
      (heading offset turn lines) lines := by
  induction lines generalizing turn with
  | nil => exact .nil
  | cons line rest ih => exact .cons ⟨rfl, rfl, rfl⟩ ih

/-- A removal that is deferred lies within one that is made. -/
theorem settle_removals (hclears : rs.Pairwise Stretch.Clears) (hbehind : ∀ r ∈ rs, offset ≤ r.1) :
    ∀ e ∈ (settle offset (numbered turn (removals rs))).2,
      ∃ a ∈ (settle offset (numbered turn (removals rs))).1, a.start < e.start ∧ e.stop ≤ a.stop := by
  have hpairs : (numbered turn (removals rs)).Pairwise fun a b => a.range.Clears b.range := by
    refine List.pairwise_map.mp ?_
    rw [map_range_numbered, map_fst_removals]
    exact hclears
  intro e he
  rcases settle_deferred hpairs e he with hlt | ⟨a, ha, hclear, hlt⟩
  · have hmem := (settle_perm offset _).subset (List.mem_append_right _ he)
    exact absurd (hbehind _ (mem_removals hmem).1) hlt.not_ge
  · exact ⟨a, ha, hclear.resolve_left hlt.not_ge⟩

section Removals

variable {gone : Nat → Prop}

/-- The bytes that removals cover are those that are gone: a byte of a removal that is deferred is in the
one around it. -/
theorem covered_removals (hclears : rs.Pairwise Stretch.Clears) (hbehind : ∀ r ∈ rs, offset ≤ r.1) {i : Nat}
    (hgone : gone i ↔ ∃ r ∈ rs, r.1 ≤ i ∧ i < r.2) :
    (settle offset (numbered turn (removals rs))).1.any (·.covers i) = true ↔ gone i := by
  rw [hgone, List.any_eq_true]
  constructor
  · rintro ⟨e, he, hcovers⟩
    have hin : e.start ≤ i ∧ i < e.stop := by simpa [covers] using hcovers
    exact ⟨e.range, (mem_removals ((settle_sublist offset _).subset he)).1, hin⟩
  · rintro ⟨r, hr, hfirst, hlast⟩
    obtain ⟨e, he, rfl⟩ : ∃ e ∈ numbered turn (removals rs), e.range = r := by
      rw [← List.mem_map, map_range_numbered, map_fst_removals]
      exact hr
    have hin : e.start ≤ i ∧ i < e.stop := ⟨hfirst, hlast⟩
    rcases List.mem_append.mp ((settle_perm offset _).symm.subset he) with happlied | hdeferred
    · exact ⟨e, happlied, by simpa [covers] using hin⟩
    · obtain ⟨a, ha, hstart, hstop⟩ := settle_removals hclears hbehind e hdeferred
      refine ⟨a, ha, ?_⟩
      simp only [covers, Bool.and_eq_true, decide_eq_true_eq]
      omega

variable [DecidablePred gone]

/-- Where nothing is put, a byte is left of the text unless it is covered. -/
theorem bytesAt_removed {i : Nat} (hes : ∀ e ∈ es, e.text = ByteArray.empty) (hi : i < source.size)
    (hcovered : es.any (·.covers i) = true ↔ gone i) :
    bytesAt source es i = if gone i then [] else [source.get! i] := by
  have htexts : (es.filter (·.start == i)).flatMap (·.text.data.toList) = [] := by
    refine List.flatMap_eq_nil_iff.mpr fun e he => ?_
    rw [hes e (List.mem_of_mem_filter he)]
    rfl
  have hbyte : source.data.toList[i]? = some (source.get! i) := by
    have hlength : i < source.data.toList.length := hi
    rw [List.getElem?_eq_getElem hlength, Array.getElem_toList]
    exact congrArg some (getElem!_pos source.data i hi).symm
  unfold bytesAt
  rw [htexts, List.nil_append, hbyte]
  by_cases hgone : gone i
  · rw [if_pos hgone, if_pos (hcovered.mpr hgone)]
  · rw [if_neg hgone, if_neg fun h => hgone (hcovered.mp h)]
    rfl

theorem bytesAt_end (hes : ∀ e ∈ es, e.text = ByteArray.empty) : bytesAt source es source.size = [] := by
  have htexts : (es.filter (·.start == source.size)).flatMap (·.text.data.toList) = [] := by
    refine List.flatMap_eq_nil_iff.mpr fun e he => ?_
    rw [hes e (List.mem_of_mem_filter he)]
    rfl
  have hbyte : source.data.toList[source.size]? = none := List.getElem?_eq_none (Nat.le_refl _)
  unfold bytesAt
  rw [htexts, hbyte]
  split <;> rfl

theorem flatMap_kept (f : Nat → UInt8) (offsets : List Nat) :
    offsets.flatMap (fun i => if gone i then [] else [f i]) = (offsets.filter fun i => ¬ gone i).map f := by
  induction offsets with
  | nil => rfl
  | cons i rest ih =>
    rw [List.flatMap_cons, ih, List.filter_cons]
    by_cases hgone : gone i
    · rw [if_pos hgone, if_neg (by simpa using hgone)]
      rfl
    · rw [if_neg hgone, if_pos (by simpa using hgone)]
      rfl

/-- What edits leave of a text that do nothing but take away are the bytes that are not gone. -/
theorem splice_emptied (hes : ∀ e ∈ es, e.text = ByteArray.empty) (hfirst : ∀ e ∈ es, offset ≤ e.start)
    (hinside : ∀ e ∈ es, e.start ≤ e.stop ∧ e.stop ≤ source.size)
    (hapart : es.Pairwise fun a b => a.stop ≤ b.start) (hsize : offset ≤ source.size)
    (hgone : ∀ i < source.size, es.any (·.covers i) = true ↔ gone i) :
    splice source offset es = without source gone offset := by
  have hbytes : ∀ i ∈ List.range' offset (source.size - offset),
      bytesAt source es i = if gone i then [] else [source.get! i] := by
    intro i hi
    have hlt := (List.mem_range'_1.mp hi).2
    have hi : i < source.size := by omega
    exact bytesAt_removed hes hi (hgone i hi)
  refine ByteArray.ext (Array.toList_inj.mp ?_)
  rw [toList_splice source hsize hfirst hinside hapart,
    show source.size + 1 - offset = (source.size - offset) + 1 by omega, List.range'_concat,
    List.flatMap_append, List.flatMap_singleton, Nat.one_mul, Nat.add_sub_cancel' hsize,
    bytesAt_end hes, List.append_nil, List.flatMap_congr hbytes, flatMap_kept]
  rfl

/-- What removals leave of a text are the bytes that are not gone. -/
theorem splice_removals (hclears : rs.Pairwise Stretch.Clears) (hbehind : ∀ r ∈ rs, offset ≤ r.1)
    (hinside : ∀ r ∈ rs, r.1 ≤ r.2 ∧ r.2 ≤ source.size) (hsize : offset ≤ source.size)
    (hgone : ∀ i < source.size, gone i ↔ ∃ r ∈ rs, r.1 ≤ i ∧ i < r.2) :
    splice source offset (settle offset (numbered turn (removals rs))).1 = without source gone offset := by
  have hmem : ∀ e ∈ (settle offset (numbered turn (removals rs))).1,
      e.range ∈ rs ∧ e.text = ByteArray.empty :=
    fun e he => mem_removals ((settle_sublist offset _).subset he)
  obtain ⟨hfirst, hapart⟩ := @settle_apart offset (numbered turn (removals rs)) fun e he =>
    (hinside _ (mem_removals he).1).1
  exact splice_emptied (fun e he => (hmem e he).2) hfirst (fun e he => hinside _ (hmem e he).1) hapart hsize
    fun i hi => covered_removals hclears hbehind (hgone i hi)

end Removals

end Edit

/-! ## The batch -/

namespace Batch

/-- An uncommitted batch that removes ranges, and then puts lines ahead of everything at an offset. -/
def headed (generation : Nat) (rs : List Stretch) (offset : Nat) (lines : List String) : Batch :=
  { Batch.open' generation with
    edits := Edit.numbered 0 (Edit.removals rs) ++ Edit.heading offset rs.length lines }

variable {generation offset length : Nat} {rs : List Stretch} {lines : List String} {line : String}
  {source : ByteArray}

theorem headed_nothing : headed generation rs offset [] = holding generation (Edit.removals rs) := by
  unfold headed holding Edit.heading
  rw [List.append_nil]

theorem add_headed (hwide : ∀ r ∈ rs, r.1 < r.2) (hinside : offset ≤ length) (hfresh : line ∉ lines) :
    (headed generation rs offset lines).add generation length offset offset
      (Text.ofString line ++ [Glyph.char '\n']) true = .ok (headed generation rs offset (lines ++ [line])) := by
  have hnew : ∀ e ∈ (headed generation rs offset lines).edits, ¬ e.Puts offset offset (line ++ "\n") := by
    rintro e he ⟨hstart, hstop, htext⟩
    rcases List.mem_append.mp he with he | he
    · have hlt : e.start < e.stop := hwide _ (Edit.mem_removals he).1
      omega
    · obtain ⟨-, -, -, -, line', hline', htext'⟩ := Edit.mem_heading he
      have hsame : line' ++ "\n" = line ++ "\n" := String.toByteArray_inj.mp (htext'.symm.trans htext)
      rw [← String.toList_inj, String.toList_append, String.toList_append, List.append_left_inj,
        String.toList_inj] at hsame
      exact hfresh (hsame ▸ hline')
  refine (add_new (b := headed generation rs offset lines) rfl ⟨Nat.le_refl _, hinside⟩
    (Text.toString?_line line) hnew).trans ?_
  unfold headed size
  rw [Edit.heading_append, ← List.append_assoc, List.length_append, Edit.length_numbered,
    Edit.length_removals, Edit.length_heading]
  rfl

/-- What such a batch makes of a text, and what it defers. -/
theorem settled_headed (hwide : ∀ r ∈ rs, r.1 < r.2) (hbehind : ∀ r ∈ rs, offset ≤ r.1)
    (hclears : rs.Pairwise Stretch.Clears) : (headed generation rs offset lines).settled =
      ((Edit.heading offset rs.length lines).reverse ++
          (Edit.settle offset (Edit.numbered 0 (Edit.removals rs))).1,
        (Edit.settle offset (Edit.numbered 0 (Edit.removals rs))).2) := by
  unfold settled headed
  dsimp only
  rw [Edit.sorted_headed hwide hbehind hclears, Edit.settle_heading (Nat.zero_le _)]
  · intro e he
    obtain ⟨hstart, hstop, -⟩ := Edit.mem_heading (List.mem_reverse.mp he)
    exact ⟨hstart, hstop⟩
  · exact fun e he => hbehind _ (Edit.mem_removals he).1

theorem outcome_headed (hwide : ∀ r ∈ rs, r.1 < r.2) (hbehind : ∀ r ∈ rs, offset ≤ r.1)
    (hclears : rs.Pairwise Stretch.Clears) (hinside : ∀ r ∈ rs, r.2 ≤ source.size)
    (hsize : offset ≤ source.size) {gone : Nat → Prop} [DecidablePred gone]
    (hgone : ∀ i < source.size, gone i ↔ ∃ r ∈ rs, r.1 ≤ i ∧ i < r.2) :
    (headed generation rs offset lines).outcome source =
      source.extract 0 offset ++ lineText lines.reverse ++ without source gone offset := by
  unfold outcome
  rw [settled_headed hwide hbehind hclears, Edit.splice_heading (Nat.zero_le _) hsize,
    Edit.splice_removals hclears hbehind (fun r hr => ⟨(hwide r hr).le, hinside r hr⟩) hsize hgone]
  · exact fun e he => hbehind _ (Edit.mem_removals ((Edit.settle_sublist _ _).subset he)).1
  · exact List.forall₂_reverse_iff.mpr Edit.forall₂_heading

/-- A batch of nothing but lines. -/
theorem outcome_topped (hsize : offset ≤ source.size) : (headed generation [] offset lines).outcome source =
    source.extract 0 offset ++ lineText lines.reverse ++ source.extract offset source.size := by
  have hnone : ∀ r ∈ ([] : List Stretch), r.1 < r.2 ∧ offset ≤ r.1 := fun _ h => nomatch h
  unfold outcome
  rw [settled_headed (fun r hr => (hnone r hr).1) (fun r hr => (hnone r hr).2) .nil]
  exact Edit.splice_heading (Nat.zero_le _) hsize (fun _ h => nomatch h)
    (List.forall₂_reverse_iff.mpr Edit.forall₂_heading)

end Batch

/-! ## Recording -/

section Recording

variable {d : Document} {ps : List Place} {lines : List String}

theorem records_remove_holding {p : Place} {rs : List Stretch}
    (hinside : (d.extent p).1 ≤ (d.extent p).2 ∧ (d.extent p).2 ≤ d.source.size) (hfresh : d.extent p ∉ rs) :
    Records (d.handle p).remove d (.holding d.generation (Edit.removals rs)) ()
      (.holding d.generation (Edit.removals (rs ++ [d.extent p]))) := by
  have hstatement : (d.handle p).isStatement d =
      .ok ((p.parent?.map (·.node.kind.holdsStatements)).getD false) :=
    look_bind_eq Handle.fresh_handle rfl
  have hfresh : d.extent p ∉ (Edit.removals rs).map Prod.fst := by
    rw [Edit.map_fst_removals]
    exact hfresh
  refine records_look_bind (Handle.plain_node _) Handle.node_handle ?_
  unfold Records
  rw [Document.bind_apply, Document.get_apply]
  change Records (do
      let statement ← ((d.handle p).isStatement : Looking _)
      let range := if statement then Handle.lineExtent d p.node else (p.node.start, p.node.stop)
      Document.recordEdit range.1 range.2 [] false) d _ () _
  refine records_look_bind (Handle.plain_isStatement _) hstatement (records_recordEdit_of_add ?_)
  rw [Edit.removals_append]
  exact Batch.add_holding (r := (d.extent p, "")) hinside hfresh

theorem records_removeEach {rs : List Stretch} (hdistinct : (rs ++ ps.map d.extent).Nodup)
    (hinside : ∀ p ∈ ps, (d.extent p).1 ≤ (d.extent p).2 ∧ (d.extent p).2 ≤ d.source.size) :
    Records ((ps.map d.handle).forM (·.remove)) d (.holding d.generation (Edit.removals rs)) ⟨⟩
      (.holding d.generation (Edit.removals (rs ++ ps.map d.extent))) := by
  induction ps generalizing rs with
  | nil =>
    rw [List.map_nil, List.map_nil, List.append_nil]
    exact records_pure _
  | cons p ps ih =>
    obtain ⟨hp, hps⟩ := List.forall_mem_cons.mp hinside
    have hfresh : d.extent p ∉ rs := fun hmem =>
      (List.nodup_append.mp hdistinct).2.2 _ hmem _ List.mem_cons_self rfl
    rw [List.map_cons, List.append_cons] at hdistinct
    have hrest := ih hdistinct hps
    rw [List.append_assoc, List.singleton_append] at hrest
    exact (records_remove_holding hp hfresh).andThen hrest

theorem records_insertAtTop_of_add {b b' : Batch} {line : String} (hline : line ≠ "")
    (h : b.add d.generation d.source.size d.top d.top (Text.ofString line ++ [.char '\n']) true = .ok b') :
    Records (Document.insertAtTop (Text.ofString line)) d b () b' := by
  have hsome : (Text.ofString line).isEmpty = false := by
    rw [List.isEmpty_eq_false_iff, Text.ofString, ne_eq, List.map_eq_nil_iff, String.toList_eq_nil_iff]
    exact hline
  unfold Document.insertAtTop
  rw [hsome, if_neg Bool.false_ne_true]
  unfold Records
  rw [Document.bind_apply, Document.get_apply]
  exact records_recordEdit_of_add (d := d) h

theorem records_insertAtTop {rs : List Stretch} {line : String} (hwide : ∀ r ∈ rs, r.1 < r.2)
    (hinside : d.top ≤ d.source.size) (hfresh : line ∉ lines) (hline : line ≠ "") :
    Records (Document.insertAtTop (Text.ofString line)) d (.headed d.generation rs d.top lines) ()
      (.headed d.generation rs d.top (lines ++ [line])) :=
  records_insertAtTop_of_add hline (Batch.add_headed hwide hinside hfresh)

theorem records_insertEach {rs : List Stretch} (hwide : ∀ r ∈ rs, r.1 < r.2)
    (hinside : d.top ≤ d.source.size) {more : List String} (hdistinct : (lines ++ more).Nodup)
    (hmore : ∀ line ∈ more, line ≠ "") :
    Records ((more.map Text.ofString).forM Document.insertAtTop) d (.headed d.generation rs d.top lines) ⟨⟩
      (.headed d.generation rs d.top (lines ++ more)) := by
  induction more generalizing lines with
  | nil =>
    rw [List.append_nil]
    exact records_pure _
  | cons line more ih =>
    obtain ⟨hline, hmore⟩ := List.forall_mem_cons.mp hmore
    have hfresh : line ∉ lines := fun hmem =>
      (List.nodup_append.mp hdistinct).2.2 _ hmem _ List.mem_cons_self rfl
    rw [List.append_cons] at hdistinct
    have hrest := ih hdistinct hmore
    rw [List.append_assoc, List.singleton_append] at hrest
    exact (records_insertAtTop hwide hinside hfresh hline).andThen hrest

end Recording

end TestMigration
