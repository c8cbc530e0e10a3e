import TestMigration.Proofs.Nesting
import Mathlib.Data.List.Perm.Basic

/-! Replacements that are asked for more than once. A batch keeps one of each, in the order in which they
were first asked for; where no two of different kinds overlap, all of them are made. -/

namespace TestMigration

namespace Replacement

/-- One more replacement, unless it is there already. -/
def joined (rs : List Replacement) (r : Replacement) : List Replacement := if r ∈ rs then rs else rs ++ [r]

/-- What is kept of the replacements that are asked for, after those in `rs`. -/
def gathered (rs asked : List Replacement) : List Replacement := asked.foldl joined rs

variable {rs asked more : List Replacement} {r x : Replacement}

theorem mem_joined : x ∈ joined rs r ↔ x ∈ rs ∨ x = r := by
  unfold joined
  split
  · rename_i hr
    exact ⟨.inl, fun h => h.elim id fun hx => hx ▸ hr⟩
  · rw [List.mem_append, List.mem_singleton]

theorem nodup_joined (h : rs.Nodup) : (joined rs r).Nodup := by
  unfold joined
  split
  · exact h
  · rename_i hr
    rw [← List.concat_eq_append]
    exact h.concat hr

theorem gathered_append : gathered rs (asked ++ more) = gathered (gathered rs asked) more := List.foldl_append

theorem mem_gathered : x ∈ gathered rs asked ↔ x ∈ rs ∨ x ∈ asked := by
  induction asked generalizing rs with
  | nil => exact ⟨.inl, fun h => h.elim id fun hx => nomatch hx⟩
  | cons r asked ih =>
    change x ∈ gathered (joined rs r) asked ↔ _
    rw [ih, mem_joined, List.mem_cons, or_assoc]

theorem nodup_gathered (h : rs.Nodup) : (gathered rs asked).Nodup := by
  induction asked generalizing rs with
  | nil => exact h
  | cons r asked ih => exact ih (nodup_joined h)

end Replacement

open Replacement (joined gathered)

variable {generation length : Nat} {rs : List Replacement} {r : Replacement}

namespace Edit

theorem numbered_of_mem (turn : Nat) (h : r ∈ rs) : ∃ e ∈ numbered turn rs, e.Puts r.1.1 r.1.2 r.2 := by
  induction rs generalizing turn with
  | nil => cases h
  | cons r' rest ih =>
    rcases List.mem_cons.mp h with rfl | h
    · exact ⟨_, List.mem_cons_self, rfl, rfl, rfl⟩
    · obtain ⟨e, he, hputs⟩ := ih (turn + 1) h
      exact ⟨e, List.mem_cons_of_mem _ he, hputs⟩

theorem map_range_of_makes {es : List Edit} (h : Makes es rs) : es.map range = rs.map Prod.fst := by
  induction h with
  | nil => rfl
  | cons hputs _ ih =>
    rw [List.map_cons, List.map_cons, ih]
    exact congrArg (· :: _) (Prod.ext hputs.1 hputs.2.1)

theorem makes_numbered (turn : Nat) (rs : List Replacement) : Makes (numbered turn rs) rs := by
  induction rs generalizing turn with
  | nil => exact .nil
  | cons r rs ih => exact .cons ⟨rfl, rfl, rfl⟩ (ih (turn + 1))

end Edit

namespace Batch

/-- A repeat is dropped, anything else is put at the end. -/
theorem add_joined (hinside : r.1.1 ≤ r.1.2 ∧ r.1.2 ≤ length) :
    (holding generation rs).add generation length r.1.1 r.1.2 (.ofString r.2) false =
      .ok (holding generation (joined rs r)) := by
  by_cases hmem : r ∈ rs
  · have hrange : ¬ (((r.1.1 : Int) < 0 || (r.1.2 : Int) < r.1.1 || (r.1.2 : Int) > length) = true) := by
      simp only [Bool.or_eq_true, decide_eq_true_iff]
      omega
    obtain ⟨e, he, hstart, hstop, htext⟩ := Edit.numbered_of_mem 0 hmem
    have hany : ((holding generation rs).edits.any fun e =>
        e.start == r.1.1 && e.stop == r.1.2 && e.text == r.2.toUTF8) = true := by
      refine List.any_eq_true.mpr ⟨e, he, ?_⟩
      rw [hstart, hstop, htext, beq_self_eq_true, beq_self_eq_true]
      exact (beq_self_eq_true r.2.toUTF8.data :)
    have hopen : (holding generation rs).committed = false ∧ (holding generation rs).generation = generation :=
      ⟨rfl, rfl⟩
    unfold add joined
    rw [if_neg (by rw [hopen.1]; exact Bool.false_ne_true), if_neg (by rw [hopen.2]; simp), if_neg hrange,
      Text.toString?_ofString]
    dsimp only [Int.toNat_natCast]
    rw [if_pos hany, if_pos hmem]
  · have hnew : ∀ e ∈ (holding generation rs).edits, ¬ e.Puts r.1.1 r.1.2 r.2 := by
      intro e he hputs
      obtain ⟨r', hr', hputs'⟩ := Edit.mem_numbered he
      have hrange : r.1 = r'.1 := Prod.ext (hputs.1.symm.trans hputs'.1) (hputs.2.1.symm.trans hputs'.2.1)
      have htext : r.2 = r'.2 := by
        have hbytes := hputs.2.2.symm.trans hputs'.2.2
        exact String.toByteArray_inj.mp hbytes
      exact hmem (Prod.ext hrange htext ▸ hr')
    refine (add_new (b := holding generation rs) rfl hinside (Text.toString?_ofString _) hnew).trans ?_
    unfold joined holding size
    rw [if_neg hmem, Edit.numbered_append, Nat.zero_add, Edit.length_numbered]
    rfl

/-- Where no two overlap, all are made, in the order of the text. -/
theorem outcome_apart (source : ByteArray) (hwide : ∀ r ∈ rs, r.1.1 ≤ r.1.2)
    (hapart : rs.Pairwise fun a b => a.1.Apart b.1) :
    ∃ made, made.Perm rs ∧ (made.Pairwise fun a b => a.1.2 ≤ b.1.1) ∧
      (holding generation rs).outcome source = Edit.splice source 0 (Edit.numbered 0 made) ∧
      (holding generation rs).settled.2 = [] := by
  have hranges : ∀ e ∈ (holding generation rs).edits, e.start ≤ e.stop := by
    intro e he
    obtain ⟨r, hr, hstart, hstop, -⟩ := Edit.mem_numbered he
    rw [hstart, hstop]
    exact hwide r hr
  have hpairs : (holding generation rs).edits.Pairwise fun x y => x.range.Apart y.range := by
    have hranged : ((Edit.numbered 0 rs).map Edit.range).Pairwise Stretch.Apart := by
      rw [Edit.map_range_numbered]
      exact List.pairwise_map.mpr hapart
    exact List.pairwise_map.mp hranged
  have hnone : (holding generation rs).settled.2 = [] := (settled_all_iff hranges).mpr hpairs
  have hperm : (holding generation rs).settled.1.Perm (Edit.numbered 0 rs) := by
    have hall := (Edit.settle_perm 0 _).trans (Edit.sorted_perm (holding generation rs).edits)
    change ((holding generation rs).settled.1 ++ (holding generation rs).settled.2).Perm _ at hall
    rwa [hnone, List.append_nil] at hall
  obtain ⟨made, hmakes, hmade⟩ := List.perm_comp_forall₂ hperm (Edit.makes_numbered 0 rs)
  have horder : (holding generation rs).settled.1.Pairwise fun a b => a.stop ≤ b.start :=
    (Edit.settle_apart fun e he => hranges e ((Edit.sorted_perm _).subset he)).2
  refine ⟨made, hmade, ?_, Edit.splice_of_makes hmakes, hnone⟩
  have hranged : (made.map Prod.fst).Pairwise fun a b => a.2 ≤ b.1 := by
    rw [← Edit.map_range_of_makes hmakes]
    exact List.pairwise_map.mpr horder
  exact List.pairwise_map.mp hranged

end Batch

/-- In an open block the node is given the text. -/
theorem records_replaceWith_joined {d : Document} {p : Script.Place} {text : String}
    (hinside : p.node.start ≤ p.node.stop ∧ p.node.stop ≤ d.source.size) :
    Records ((d.handle p).replaceWith text) d (.holding d.generation rs) ()
      (.holding d.generation (joined rs (p.node.range, text))) :=
  records_look_bind (Handle.plain_node _) Handle.node_handle
    (records_recordEdit_of_add (Batch.add_joined (r := (p.node.range, text)) hinside))

/-! ## Searches -/

theorem head?_distinct (hs : List Handle) : (MatchSet.distinct hs).head? = hs.head? := by
  have hloop : ∀ (hs kept : List Handle), kept ≠ [] →
      (hs.foldl (fun kept h => if kept.any h.same then kept else h :: kept) kept).getLast? = kept.getLast? := by
    intro hs
    induction hs with
    | nil => exact fun _ _ => rfl
    | cons h hs ih =>
      intro kept hkept
      rw [List.foldl_cons]
      split
      · exact ih kept hkept
      · rw [ih _ (List.cons_ne_nil _ _), List.getLast?_cons, List.getLast?_eq_some_getLast hkept]
        rfl
  cases hs with
  | nil => rfl
  | cons h hs =>
    unfold MatchSet.distinct
    rw [List.head?_reverse]
    exact hloop hs [h] (List.cons_ne_nil _ _)

/-- Of what is found something of the same range and kind is kept. -/
theorem exists_same_distinct {h : Handle} {hs : List Handle} (hh : h ∈ hs) :
    ∃ k ∈ MatchSet.distinct hs, h.same k = true := by
  have hself : h.same h = true := by
    unfold Handle.same
    simp
  have hloop : ∀ (hs kept : List Handle), (h ∈ hs ∨ ∃ k ∈ kept, h.same k = true) →
      ∃ k ∈ hs.foldl (fun kept h => if kept.any h.same then kept else h :: kept) kept, h.same k = true := by
    intro hs
    induction hs with
    | nil => exact fun kept hk => hk.resolve_left List.not_mem_nil
    | cons first rest ih =>
      intro kept hk
      refine ih _ ?_
      dsimp only
      rcases hk with hmem | ⟨k, hk, hsame⟩
      · rcases List.mem_cons.mp hmem with rfl | hmem
        · split
          · rename_i hany
            exact .inr (List.any_eq_true.mp hany)
          · exact .inr ⟨h, List.mem_cons_self, hself⟩
        · exact .inl hmem
      · split
        · exact .inr ⟨k, hk, hsame⟩
        · exact .inr ⟨k, List.mem_cons_of_mem _ hk, hsame⟩
  obtain ⟨k, hk, hsame⟩ := hloop hs [] (.inl hh)
  exact ⟨k, List.mem_reverse.mpr hk, hsame⟩

namespace Document

variable {d : Document} {test : Script.Place → Bool} {p : Script.Place}

theorem head?_found (d : Document) (test : Script.Place → Bool) :
    (d.found test).head? = (d.places.filter test).head? := by
  unfold found
  rw [List.head?_map, head?_distinct, List.head?_map, Option.map_map]
  exact Option.map_id'

theorem exists_found (hp : p ∈ d.places) (htest : test p = true) :
    ∃ q ∈ d.found test, q.node.range = p.node.range := by
  obtain ⟨k, hk, hsame⟩ :=
    exists_same_distinct (List.mem_map_of_mem (f := d.handle) (List.mem_filter.mpr ⟨hp, htest⟩))
  refine ⟨k.place, List.mem_map_of_mem hk, ?_⟩
  unfold Handle.same at hsame
  simp only [Bool.and_eq_true, beq_iff_eq] at hsame
  exact (Prod.ext hsame.1.1.2 hsame.1.2).symm

end Document

end TestMigration
