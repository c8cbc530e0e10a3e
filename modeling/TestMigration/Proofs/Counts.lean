import TestMigration.Proofs.Outermost
import TestMigration.Proofs.Recording

/-! Replacements and their number. Nodes of different ranges that are replaced in one batch leave an edit
each, and of these edits all are applied if and only if the ranges lie apart. -/

namespace TestMigration

/-- Bytes from one offset up to another. -/
abbrev Stretch := Nat × Nat

/-- One of the ranges ends before the other begins. -/
def Stretch.Apart (a b : Stretch) : Prop := a.2 ≤ b.1 ∨ b.2 ≤ a.1

theorem Stretch.Apart.symm {a b : Stretch} (h : a.Apart b) : b.Apart a := Or.symm h

def Edit.range (e : Edit) : Stretch := (e.start, e.stop)

def Script.Node.range (n : Script.Node) : Stretch := (n.start, n.stop)

namespace Batch

variable {b b' : Batch} {e : Edit}

/-- An edit of a range that the batch does not hold yet is put at its end. -/
theorem add_fresh {generation length start stop : Nat} {text : Text} {ahead : Bool}
    (h : b.add generation length start stop text ahead = .ok b')
    (hfresh : (start, stop) ∉ b.edits.map Edit.range) :
    ∃ e, b'.edits = b.edits ++ [e] ∧ e.range = (start, stop) := by
  obtain ⟨-, s, -, ⟨⟨e, he, hstart, hstop, -⟩, -⟩ | rfl⟩ := add_cases h
  · refine absurd (List.mem_map.mpr ⟨e, he, ?_⟩) hfresh
    rw [Edit.range, hstart, hstop]
    rfl
  · exact ⟨_, rfl, rfl⟩

theorem length_settled (b : Batch) : b.settled.1.length + b.settled.2.length = b.edits.length := by
  rw [← List.length_append]
  exact ((Edit.settle_perm 0 _).trans (Edit.sorted_perm _)).length_eq

/-- An edit is deferred only for one that it overlaps. -/
theorem settled_all_iff (hranges : ∀ e ∈ b.edits, e.start ≤ e.stop) :
    b.settled.2 = [] ↔ b.edits.Pairwise fun x y => x.range.Apart y.range := by
  have hsymm : ∀ {x y : Edit}, x.range.Apart y.range → y.range.Apart x.range := Stretch.Apart.symm
  constructor
  · intro hnone
    have hperm := (Edit.settle_perm 0 _).trans (Edit.sorted_perm b.edits)
    change (b.settled.1 ++ b.settled.2).Perm b.edits at hperm
    rw [hnone, List.append_nil] at hperm
    obtain ⟨-, hapart⟩ := @Edit.settle_apart 0 (Edit.sorted b.edits)
      fun e he => hranges e ((Edit.sorted_perm _).subset he)
    exact (hperm.pairwise_iff hsymm).mp (hapart.imp .inl)
  · intro hapart
    rw [List.eq_nil_iff_forall_not_mem]
    intro e he
    have horder := (Edit.sorted_pairwise b.edits).and
      (((Edit.sorted_perm b.edits).pairwise_iff hsymm).mpr hapart)
    rcases Edit.settle_deferred horder e he with hlt | ⟨a, ha, ⟨hbefore, hclear⟩, hover⟩
    · exact absurd hlt (Nat.not_lt_zero _)
    · -- apart in spite of that, the later one is an insertion, and those come first
      have hle := hranges e ((Edit.sorted_perm _).subset
        ((Edit.settle_perm 0 _).subset (List.mem_append_right _ he)))
      have hstart := start_le_of_before hbefore
      have hstops : a.stop ≤ e.start ∨ e.stop ≤ a.start := hclear
      have hinsertion : e.isInsertion = true := Edit.isInsertion_iff.mpr (by omega)
      have hwide : a.isInsertion = false := by
        rw [← Bool.not_eq_true, Edit.isInsertion_iff]
        omega
      have hsame : (a.start != e.start) = false := by
        rw [bne_eq_false_iff_eq]
        omega
      unfold Edit.before at hbefore
      rw [hsame, hwide, hinsertion] at hbefore
      cases hbefore

end Batch

/-! ## One edit for each node -/

variable {d d' : Document} {b b' : Batch} {build : Handle → Looking (Option Text)}

/-- A text is built for the node. -/
def Document.converts (d : Document) (build : Handle → Looking (Option Text)) (h : Handle) : Bool :=
  match build h d with
  | .ok (some _) => true
  | _ => false

theorem records_replaceBy_counts (hb : ∀ h, Plain (build h)) {h : Handle} {n : Nat}
    (hr : Records (h.replaceBy build) d b n b')
    (hfresh : h.place.node.range ∉ b.edits.map Edit.range) :
    b'.edits.map Edit.range = b.edits.map Edit.range ++
        (if d.converts build h then [h.place.node.range] else []) ∧
      n = if d.converts build h then 1 else 0 := by
  obtain ⟨text, htext, hr⟩ := hr.look_bind (hb h)
  unfold Document.converts
  rw [htext]
  cases text with
  | none =>
    obtain ⟨rfl, rfl⟩ := hr.pure
    exact ⟨by simp, rfl⟩
  | some t =>
    obtain ⟨u, b₁, hreplace, hr⟩ := hr.bind (h.made_replaceWith t)
    obtain ⟨rfl, rfl⟩ := hr.pure
    obtain ⟨node, hnode, hreplace⟩ := hreplace.look_bind h.plain_node
    rw [Handle.node_ok hnode] at hreplace
    obtain ⟨e, hedits, hrange⟩ := Batch.add_fresh (records_add hreplace) hfresh
    rw [hedits, List.map_append]
    exact ⟨by rw [List.map_singleton, hrange]; rfl, rfl⟩

/-- Nodes of different ranges leave an edit each, in their order. -/
theorem records_replaceEach_counts (hb : ∀ h, Plain (build h)) {found : List Handle}
    {counts : List Nat} (hr : Records (found.mapM (·.replaceBy build)) d b counts b')
    (hfresh : (b.edits.map Edit.range ++ found.map (·.place.node.range)).Nodup) :
    b'.edits.map Edit.range = b.edits.map Edit.range ++
        (found.filter (d.converts build)).map (·.place.node.range) ∧
      counts.foldr (· + ·) 0 = (found.filter (d.converts build)).length := by
  have hmade := Handle.made_replaceBy hb
  induction found generalizing b counts with
  | nil =>
    obtain ⟨rfl, rfl⟩ := hr.pure
    exact ⟨by simp, rfl⟩
  | cons first rest ih =>
    rw [List.mapM_cons] at hr
    obtain ⟨n, b₁, hfirst, hr⟩ := hr.bind (hmade first)
    obtain ⟨ns, b₂, hothers, hr⟩ := hr.bind (made_stepwise.mapM hmade rest)
    obtain ⟨rfl, rfl⟩ := hr.pure
    have hnew : first.place.node.range ∉ b.edits.map Edit.range := by
      intro hmem
      exact (List.nodup_append.mp hfresh).2.2 _ hmem _ List.mem_cons_self rfl
    obtain ⟨hedits, hn⟩ := records_replaceBy_counts hb hfirst hnew
    have hsub : (b₁.edits.map Edit.range ++ rest.map (·.place.node.range)).Sublist
        (b.edits.map Edit.range ++ (first :: rest).map (·.place.node.range)) := by
      rw [hedits, List.append_assoc, List.map_cons]
      refine List.Sublist.append_left ?_ _
      split
      · exact .refl _
      · exact (List.Sublist.refl _).cons _
    obtain ⟨hrest, hcount⟩ := ih hothers (hfresh.sublist hsub)
    rw [hrest, hedits, List.foldr_cons, hcount, hn, List.filter_cons]
    cases d.converts build first with
    | true => exact ⟨by simp, by rw [if_pos rfl, if_pos rfl, List.length_cons, Nat.add_comm]⟩
    | false => exact ⟨by simp, by simp⟩

/-! ## What a search finds once -/

/-- A search keeps one handle of those that are the same. -/
theorem distinct_pairwise (hs : List Handle) :
    (MatchSet.distinct hs).Pairwise fun a b => b.same a = false := by
  have hloop : ∀ hs kept : List Handle, (kept.Pairwise fun a b => a.same b = false) →
      ((hs.foldl (fun kept h => if kept.any h.same then kept else h :: kept) kept).Pairwise
        fun a b => a.same b = false) := by
    intro hs
    induction hs with
    | nil => exact fun kept hkept => hkept
    | cons first rest ih =>
      intro kept hkept
      refine ih _ ?_
      dsimp only
      split
      · exact hkept
      · rename_i hnew
        rw [Bool.not_eq_true, List.any_eq_false] at hnew
        exact List.pairwise_cons.mpr ⟨fun k hk => Bool.not_eq_true _ ▸ hnew k hk, hkept⟩
  exact List.pairwise_reverse.mpr (hloop hs [] .nil)

end TestMigration
