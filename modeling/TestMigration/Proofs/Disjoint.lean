import TestMigration.Proofs.Heading
import TestMigration.Proofs.Intact
import TestMigration.Proofs.Leaves

/-! Nodes that lie apart and are changed in one block. In whatever order replacements of ranges that lie
apart are recorded, the commit puts them one behind the other and makes all of them. Removals widen the
ranges of their nodes to whole lines, each without regard to the others; where the nodes begin and end with
something visible, what goes with one still lies apart from what goes with another. -/

namespace TestMigration

open Script (Node Place toList_toUTF8 toNat_of_mem_utf8EncodeChar)

/-! ## Replacements that lie apart -/

/-- Ranges that are wide and lie apart are different ranges. -/
theorem Stretch.nodup_of_apart {rs : List Stretch} (hwide : ∀ r ∈ rs, r.1 < r.2)
    (hapart : rs.Pairwise Stretch.Apart) : rs.Nodup := by
  refine hapart.imp_of_mem fun {a b} ha _ hab hsame => ?_
  have hlt := hwide a ha
  unfold Stretch.Apart at hab
  rw [← hsame] at hab
  omega

/-- Replacements that lie apart come one behind the other once they are in order. -/
theorem Edit.sorted_behind {es : List Edit} (hwide : ∀ e ∈ es, e.start < e.stop)
    (hapart : es.Pairwise fun x y => x.range.Apart y.range) :
    (sorted es).Pairwise fun x y => x.stop ≤ y.start := by
  have hsorted := (sorted_pairwise es).and
    (((sorted_perm es).pairwise_iff fun h => Stretch.Apart.symm h).mpr hapart)
  refine hsorted.imp_of_mem fun {x y} hx hy hxy => ?_
  obtain ⟨hbefore, hbehind | hahead⟩ := hxy
  · exact hbehind
  · have hstart := start_le_of_before hbefore
    have hlt := hwide y ((sorted_perm es).subset hy)
    have hle : y.stop ≤ x.start := hahead
    omega

/-- The bytes that removals cover in order are those in their ranges. -/
theorem Edit.covered_sorted {rs : List Stretch} {turn i : Nat} :
    (sorted (numbered turn (removals rs))).any (·.covers i) = true ↔ ∃ r ∈ rs, r.1 ≤ i ∧ i < r.2 := by
  rw [List.any_eq_true]
  constructor
  · rintro ⟨e, he, hcovers⟩
    have hin : e.start ≤ i ∧ i < e.stop := by simpa [covers] using hcovers
    exact ⟨e.range, (mem_removals ((sorted_perm _).subset he)).1, hin⟩
  · rintro ⟨r, hr, hin⟩
    obtain ⟨e, he, rfl⟩ : ∃ e ∈ numbered turn (removals rs), e.range = r := by
      rw [← List.mem_map, map_range_numbered, map_fst_removals]
      exact hr
    have hin : e.start ≤ i ∧ i < e.stop := hin
    exact ⟨e, (sorted_perm _).mem_iff.mpr he, by simpa [covers] using hin⟩

namespace Batch

variable {rs : List Replacement}

/-- Of replacements that lie apart none is deferred. -/
theorem settled_disjoint {b : Batch} (hwide : ∀ e ∈ b.edits, e.start < e.stop)
    (hapart : b.edits.Pairwise fun x y => x.range.Apart y.range) :
    b.settled = (Edit.sorted b.edits, []) := by
  have hnone : b.settled.2 = [] := (settled_all_iff fun e he => (hwide e he).le).mpr hapart
  have hperm := Edit.settle_perm 0 (Edit.sorted b.edits)
  change (b.settled.1 ++ b.settled.2).Perm _ at hperm
  rw [hnone, List.append_nil] at hperm
  exact Prod.ext ((Edit.settle_sublist 0 _).eq_of_length hperm.length_eq) hnone

theorem holding_wide (generation : Nat) (hwide : ∀ r ∈ rs, r.1.1 < r.1.2) :
    ∀ e ∈ (holding generation rs).edits, e.start < e.stop := by
  intro e he
  obtain ⟨r, hr, hstart, hstop, -⟩ := Edit.mem_numbered he
  rw [hstart, hstop]
  exact hwide r hr

theorem holding_apart (generation : Nat) (hapart : (rs.map Prod.fst).Pairwise Stretch.Apart) :
    (holding generation rs).edits.Pairwise fun x y => x.range.Apart y.range := by
  refine List.pairwise_map.mp ?_
  rw [holding, Edit.map_range_numbered]
  exact hapart

theorem settled_holding (generation : Nat) (hwide : ∀ r ∈ rs, r.1.1 < r.1.2)
    (hapart : (rs.map Prod.fst).Pairwise Stretch.Apart) :
    (holding generation rs).settled = (Edit.sorted (Edit.numbered 0 rs), []) :=
  settled_disjoint (holding_wide generation hwide) (holding_apart generation hapart)

end Batch

/-! ## What stands at the ends of a node -/

/-- The blanks of plain ASCII. -/
def isPlainBlank (c : Char) : Bool := c.toNat == 32 || (9 ≤ c.toNat && c.toNat ≤ 13)

/-- A blank byte is all there is of its character. -/
theorem isBlankByte_of_mem_utf8EncodeChar {c : Char} {b : UInt8} (hb : b ∈ String.utf8EncodeChar c)
    (hc : isPlainBlank c = false) : isBlankByte b = false := by
  rw [← Bool.not_eq_true] at hc ⊢
  refine fun hblank => hc ?_
  unfold isBlankByte at hblank
  unfold isPlainBlank
  simp only [Bool.or_eq_true, beq_iff_eq, Bool.and_eq_true, decide_eq_true_eq, ← UInt8.toNat_inj,
    UInt8.le_iff_toNat_le, UInt8.reduceToNat] at hblank ⊢
  have hsame := toNat_of_mem_utf8EncodeChar hb
  omega

/-- A byte of a piece is one of the whole. -/
theorem get!_of_extract {bytes : ByteArray} {start stop j : Nat} {piece : List UInt8}
    (h : (bytes.extract start stop).data.toList = piece) (hj : j < piece.length) :
    bytes.get! (start + j) = piece[j] := by
  subst h
  have hlength := hj
  rw [Edit.toList_extract, List.length_take, List.length_drop] at hlength
  have hlt : start + j < bytes.data.toList.length := by omega
  have hget : bytes.get! (start + j) = bytes.data.toList[start + j] :=
    (getElem!_pos bytes.data (start + j) hlt).trans (Array.getElem_toList ..).symm
  simp only [hget, Edit.toList_extract, List.getElem_take, List.getElem_drop]

namespace Document

variable {d : Document} {p : Place} {ps : List Place}

/-- What the node covers begins and ends with characters that are no blanks. -/
def ShowsEnds (d : Document) (p : Place) : Prop :=
  ∃ text ∈ (d.textOf p.node).toOption, (∃ c ∈ text.toList.head?, isPlainBlank c = false) ∧
    ∃ c ∈ text.toList.getLast?, isPlainBlank c = false

-- a search among all characters is another instance of this
instance (priority := high) decidableAtEnd (o : Option Char) : Decidable (∃ c ∈ o, isPlainBlank c = false) :=
  Option.decidableExistsMem o

instance (d : Document) : DecidablePred d.ShowsEnds := fun _ => inferInstanceAs (Decidable (∃ _ ∈ _, _ ∧ _))

/-- Such a node is visible in the bytes as well. -/
theorem ShowsEnds.visible (h : d.ShowsEnds p) (hinside : p.node.stop ≤ d.source.size) : d.Visible p := by
  obtain ⟨text, hsome, ⟨c, hfirst, hc⟩, c', hlast, hc'⟩ := h
  have htext : d.textOf p.node = .ok text := by
    cases hof : d.textOf p.node with
    | error e =>
      rw [hof] at hsome
      cases hsome
    | ok t =>
      rw [hof] at hsome
      cases hsome
      rfl
  obtain ⟨rest, hrest⟩ : ∃ rest, text.toList = c :: rest := List.head?_eq_some_iff.mp hfirst
  obtain ⟨init, hinit⟩ : ∃ init, text.toList = init ++ [c'] := List.getLast?_eq_some_iff.mp hlast
  have hpiece : (d.source.extract p.node.start p.node.stop).data.toList =
      text.toList.flatMap String.utf8EncodeChar := by
    rw [Conversion.decode_ok.mp htext, toList_toUTF8]
  generalize hbytes : text.toList.flatMap String.utf8EncodeChar = piece at hpiece
  have hlength : piece.length = p.node.stop - p.node.start := by
    rw [← hpiece, Edit.toList_extract, List.length_take, List.length_drop]
    exact Nat.min_eq_left (Nat.sub_le_sub_right hinside _)
  have hhead : piece = String.utf8EncodeChar c ++ rest.flatMap String.utf8EncodeChar := by
    rw [← hbytes, hrest, List.flatMap_cons]
  have hend : piece = init.flatMap String.utf8EncodeChar ++ String.utf8EncodeChar c' := by
    rw [← hbytes, hinit, List.flatMap_append, List.flatMap_singleton]
  have hsome : piece ≠ [] := by
    rw [hhead]
    exact List.append_ne_nil_of_left_ne_nil String.utf8EncodeChar_ne_nil _
  have hpos := List.length_pos_iff_ne_nil.mpr hsome
  refine ⟨by omega, hinside, ?_, ?_⟩
  · have hget := get!_of_extract hpiece (j := 0) hpos
    rw [Nat.add_zero, ← List.head_eq_getElem hsome] at hget
    rw [hget]
    refine isBlankByte_of_mem_utf8EncodeChar ?_ hc
    subst hhead
    rw [List.head_append_of_ne_nil String.utf8EncodeChar_ne_nil]
    exact List.head_mem _
  · have hget := get!_of_extract hpiece (j := piece.length - 1) (by omega)
    rw [← List.getLast_eq_getElem hsome, show p.node.start + (piece.length - 1) = p.node.stop - 1 by omega]
      at hget
    rw [hget]
    refine isBlankByte_of_mem_utf8EncodeChar ?_ hc'
    subst hend
    rw [List.getLast_append_of_ne_nil hsome String.utf8EncodeChar_ne_nil]
    exact List.getLast_mem _

/-! ## Removals -/

/-- The byte goes with one of the nodes. -/
def TakenWith (d : Document) (ps : List Place) (i : Nat) : Prop := ∃ p ∈ ps, d.Takes p i

instance (d : Document) (ps : List Place) : DecidablePred (d.TakenWith ps) := fun _ =>
  inferInstanceAs (Decidable (∃ _ ∈ _, _))

/-- The text without the nodes and all that goes with them. -/
def stripped (d : Document) (ps : List Place) : ByteArray := without d.source (d.TakenWith ps) 0

/-- The range lies in the text and is that of the node but for blanks around it. -/
structure Widens (d : Document) (p : Place) (r : Stretch) : Prop where
  start : r.1 ≤ p.node.start
  stop : p.node.stop ≤ r.2
  inside : r.2 ≤ d.source.size
  blank : ∀ i, r.1 ≤ i → i < r.2 → i < p.node.start ∨ p.node.stop ≤ i →
    isBlankByte (d.source.get! i) = true

/-- The removals of all the nodes, one after the other. -/
def removeEach (d : Document) (ps : List Place) : Editing PUnit := (ps.map d.handle).forM (·.remove)

/-- What removals of the nodes record, and what a block comes to that holds them. -/
structure RemovesApart (d : Document) (ps : List Place) : Prop where
  records : Records (d.removeEach ps) d (.open' d.generation) ⟨⟩
    (.holding d.generation (Edit.removals (ps.map d.extent)))
  widens : ∀ p ∈ ps, d.Widens p (d.extent p)
  apart : (ps.map d.extent).Pairwise Stretch.Apart
  settled : (Batch.holding d.generation (Edit.removals (ps.map d.extent))).settled.2 = []
  block : match batched (d.removeEach ps) d with
    | .ok (_, b) d' => b.deferred = [] ∧ b.applied = ps.length ∧ d'.source = d.stripped ps
    | .error e d' => d' = d ∧ ∃ place snippet, d.read (d.stripped ps) = .error place ∧
        e = .invalidEdit place snippet

theorem Holds.widens (hp : d.Holds p) : d.Widens p (d.extent p) := by
  obtain ⟨hstart, hstop, hinside⟩ := extent_inside hp
  refine ⟨hstart, hstop, hinside, fun i hfirst hlast hout => ?_⟩
  have hi : i < d.source.size := hlast.trans_le hinside
  rcases (takes_iff hp hi).mpr ⟨hfirst, hlast⟩ with hin | ⟨-, halone, hbeside⟩
  · omega
  · exact halone i hi hbeside

section Visible

variable (hvisible : ∀ p ∈ ps, d.Visible p)

include hvisible

theorem extents_wide : ∀ r ∈ ps.map d.extent, r.1 < r.2 := by
  intro r hr
  obtain ⟨p, hp, rfl⟩ := List.mem_map.mp hr
  obtain ⟨hstart, hstop, -⟩ := extent_inside (hvisible p hp).holds
  exact hstart.trans_lt ((hvisible p hp).wide.trans_le hstop)

/-- What goes with nodes that lie apart lies apart. -/
theorem extents_apart (hapart : ps.Pairwise fun p q => p.node.range.Apart q.node.range) :
    (ps.map d.extent).Pairwise Stretch.Apart := by
  refine List.pairwise_map.mpr (hapart.imp_of_mem fun {p q} hp hq hpq => ?_)
  rcases hpq with hbefore | hbehind
  · exact .inl (extent_apart (hvisible p hp) (hvisible q hq) hbefore)
  · exact .inr (extent_apart (hvisible q hq) (hvisible p hp) hbehind)

end Visible

/-- What is left once all removals are made. -/
theorem outcome_removals (hvisible : ∀ p ∈ ps, d.Visible p)
    (hapart : ps.Pairwise fun p q => p.node.range.Apart q.node.range) (generation : Nat) :
    (Batch.holding generation (Edit.removals (ps.map d.extent))).settled =
        (Edit.sorted (Edit.numbered 0 (Edit.removals (ps.map d.extent))), []) ∧
      (Batch.holding generation (Edit.removals (ps.map d.extent))).outcome d.source = d.stripped ps := by
  have hwide : ∀ r ∈ Edit.removals (ps.map d.extent), r.1.1 < r.1.2 := by
    intro r hr
    obtain ⟨r, hmem, rfl⟩ := List.mem_map.mp hr
    exact extents_wide hvisible r hmem
  have hlie : ((Edit.removals (ps.map d.extent)).map Prod.fst).Pairwise Stretch.Apart := by
    rw [Edit.map_fst_removals]
    exact extents_apart hvisible hapart
  have hsettled := Batch.settled_holding generation hwide hlie
  refine ⟨hsettled, ?_⟩
  have hbehind := Edit.sorted_behind (Batch.holding_wide generation hwide)
    (Batch.holding_apart generation hlie)
  have hmem : ∀ e ∈ Edit.sorted (Edit.numbered 0 (Edit.removals (ps.map d.extent))),
      e.range ∈ ps.map d.extent ∧ e.text = ByteArray.empty :=
    fun e he => Edit.mem_removals ((Edit.sorted_perm _).subset he)
  unfold Batch.outcome
  rw [hsettled]
  refine Edit.splice_emptied (fun e he => (hmem e he).2) (fun _ _ => Nat.zero_le _) ?_ hbehind
    (Nat.zero_le _) ?_
  · intro e he
    obtain ⟨p, hp, hextent⟩ := List.mem_map.mp (hmem e he).1
    have hwide := extents_wide hvisible _ (hmem e he).1
    have hinside := (extent_inside (hvisible p hp).holds).2.2
    rw [hextent] at hinside
    exact ⟨hwide.le, hinside⟩
  · intro i hi
    rw [Edit.covered_sorted]
    constructor
    · rintro ⟨r, hr, hin⟩
      obtain ⟨p, hp, rfl⟩ := List.mem_map.mp hr
      exact ⟨p, hp, (takes_iff (hvisible p hp).holds hi).mpr hin⟩
    · rintro ⟨p, hp, htakes⟩
      exact ⟨d.extent p, List.mem_map_of_mem hp, (takes_iff (hvisible p hp).holds hi).mp htakes⟩

theorem made_removeEach (d : Document) (ps : List Place) : Made (d.removeEach ps) :=
  made_stepwise.forM Handle.made_remove _

theorem records_removals (hvisible : ∀ p ∈ ps, d.Visible p)
    (hapart : ps.Pairwise fun p q => p.node.range.Apart q.node.range) :
    Records (d.removeEach ps) d (.open' d.generation) ⟨⟩
      (.holding d.generation (Edit.removals (ps.map d.extent))) := by
  have hdistinct : (ps.map d.extent).Nodup :=
    Stretch.nodup_of_apart (extents_wide hvisible) (extents_apart hvisible hapart)
  refine @records_removeEach d ps [] hdistinct fun p hp => ?_
  have hwide := extents_wide hvisible _ (List.mem_map_of_mem hp)
  exact ⟨hwide.le, (extent_inside (hvisible p hp).holds).2.2⟩

/-- Removals of nodes that lie apart and begin and end with something visible do not get in each other's
way, however they are ordered. What each takes is its node and blanks, what two of them take lies apart, so
a block of them defers none and takes just that. -/
theorem removals_apart (hd : d.Intact) (closed : d.batch = none)
    (hps : ∀ p ∈ ps, p.Within d.root ∧ d.ShowsEnds p)
    (hapart : ps.Pairwise fun p q => p.node.range.Apart q.node.range) : d.RemovesApart ps := by
  have hvisible : ∀ p ∈ ps, d.Visible p := by
    intro p hp
    obtain ⟨text, htext⟩ := hd.isText
    refine (hps p hp).2.visible ?_
    rw [htext]
    exact (hd.cuts_stop (hps p hp).1 text htext).le_size
  have hrecords := records_removals hvisible hapart
  obtain ⟨hsettled, houtcome⟩ := outcome_removals hvisible hapart d.generation
  refine ⟨hrecords, fun p hp => (hvisible p hp).holds.widens, extents_apart hvisible hapart, ?_, ?_⟩
  · rw [hsettled]
  · have hblock := batched_of_records (made_removeEach d ps) closed hrecords
    rw [houtcome] at hblock
    rcases hblock with ⟨hnone, hrun⟩ | ⟨-, root, hread, hrun⟩ | ⟨-, place, snippet, hread, hrun⟩
    · have hlength : ps.length = 0 := by
        rw [← List.length_map d.extent, ← Edit.length_removals, ← @Edit.length_numbered 0]
        exact List.length_eq_zero_iff.mpr hnone
      obtain rfl : ps = [] := List.length_eq_zero_iff.mp hlength
      rw [hrun]
      exact ⟨rfl, rfl, ByteArray.extract_zero_size.symm.trans houtcome⟩
    · rw [hrun]
      refine ⟨congrArg Prod.snd hsettled, ?_, rfl⟩
      change Batch.settled _ |>.1.length = _
      rw [hsettled, (Edit.sorted_perm _).length_eq, Edit.length_numbered, Edit.length_removals,
        List.length_map]
    · rw [hrun]
      exact ⟨rfl, place, snippet, hread, rfl⟩

/-- The statements of a script, the last one first. -/
def statementsBackward (d : Document) : List Place :=
  (d.places.filter (·.node.kind == .expressionStatement)).reverse

/-- A statement of two lines, two on one line and one at the end of the text. -/
theorem removals_apart_backward : ∃ d, ofString none "foo(1,\n  2);\n\n bar(); baz();\nqux();" = .ok d ∧
    d.statementsBackward.map (fun p => (d.textOf p.node).toOption) =
      [some "qux();", some "baz();", some "bar();", some "foo(1,\n  2);"] ∧
    d.RemovesApart d.statementsBackward ∧ d.stripped d.statementsBackward = "\n  \n".toUTF8 := by
  have hchecks : (ofString none "foo(1,\n  2);\n\n bar(); baz();\nqux();").toOption.map (fun d =>
      (d.statementsBackward.map (fun p => (d.textOf p.node).toOption),
        decide (∀ p ∈ d.statementsBackward, d.ShowsEnds p),
        decide (d.statementsBackward.Pairwise fun p q => p.node.stop ≤ q.node.start ∨ q.node.stop ≤ p.node.start),
        spelledBy ["\n  \n"] (d.stripped d.statementsBackward))) =
      some ([some "qux();", some "baz();", some "bar();", some "foo(1,\n  2);"], true, true, true) := by
    decide +kernel
  obtain ⟨d, hd, hobserved⟩ := exists_of_toOption_map hchecks
  simp only [Prod.mk.injEq, decide_eq_true_eq] at hobserved
  obtain ⟨htexts, hends, hapart, hspelled⟩ := hobserved
  have hintact : d.Intact := Intact.ofBytes (keepsCharacters_parse _) hd
  have closed : d.batch = none := (sound_of_ofBytes hd).2
  refine ⟨d, hd, htexts, removals_apart hintact closed (fun p hp => ⟨?_, hends p hp⟩) hapart,
    eq_of_spelledBy hspelled⟩
  exact within_of_mem_places (List.mem_of_mem_filter (List.mem_reverse.mp hp))

end Document

end TestMigration
