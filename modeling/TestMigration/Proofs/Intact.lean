import TestMigration.Proofs.Blocks
import TestMigration.Proofs.Holding

/-! Documents that hold a text. Whatever reads it, if the nodes that it finds in a text begin and end
between characters, then so does all that is worked out from them in bytes: the lines of a node begin and
end there as well. Edits between characters that put texts make a text of a text, so a commit leaves such
a document behind, and its pieces can be decoded. -/

namespace TestMigration

open Script (Node Kind Place Location Cut)

/-! ## Lines -/

section

variable {text : String} {p : Nat}

theorem cut_lineStart (hp : p ≤ text.toUTF8.size) : Cut text (Script.lineStart text.toUTF8 p) :=
  have hline := beginsLine_lineStart text.toUTF8 p
  cut_of_beginsAt hline.begins (hline.le.trans hp)

theorem cut_lineStop (hp : p ≤ text.toUTF8.size) :
    Cut text (Document.lineStopFrom text.toUTF8 (text.toUTF8.size + 1 - p) p) := by
  have hfuel : text.toUTF8.size < text.toUTF8.size + 1 - p + p := by omega
  have hline := endsLine_lineStopFrom text.toUTF8 hfuel hp
  rcases hline.ends with hend | ⟨-, hfeed⟩
  · rw [hend]
    exact Script.cut_size text
  · exact cut_of_beginsAt (.inr hfeed) hline.inside

end

/-! ## Documents -/

/-- The nodes that are read from a text, tokens included, begin and end between its characters. -/
def KeepsCharacters (read : ByteArray → Except Location Node) : Prop :=
  ∀ (text : String) (root : Node), read text.toUTF8 = .ok root → root.OnCuts text

theorem keepsCharacters_parse (dialect : Script.Dialect) : KeepsCharacters (Script.parse dialect) :=
  fun _ _ h => Script.onCuts_parse h

namespace Document

/-- The offset parts no character of the document's text. -/
def Cuts (d : Document) (p : Nat) : Prop := ∀ text : String, d.source = text.toUTF8 → Cut text p

/-- The document holds a text; neither its nodes nor the edits that are recorded part a character. -/
structure Intact (d : Document) : Prop where
  reads : KeepsCharacters d.read
  isText : ∃ text : String, d.source = text.toUTF8
  cuts : ∀ text : String, d.source = text.toUTF8 → d.root.OnCuts text
  neat : ∀ b, d.batch = some b → ∀ e ∈ b.edits, d.Neat e

variable {d d' : Document} {p : Place} {b : Batch} {offset : Nat}

theorem cuts_lineStart (d : Document) (offset : Nat) : d.Cuts (d.lineStart offset) := by
  intro text htext
  unfold lineStart
  rw [htext]
  exact cut_lineStart (Nat.min_le_right _ _)

theorem Cuts.lineStop (h : d.Cuts offset) : d.Cuts (d.lineStop offset) := by
  intro text htext
  unfold Document.lineStop
  rw [htext]
  exact cut_lineStop (h text htext).le_size

/-- An edit between two cuts that puts a text. -/
theorem neat_of_cuts {start stop : Nat} {put : String} {e : Edit} (hstart : d.Cuts start)
    (hstop : d.Cuts stop) (he : e.Puts start stop put) : d.Neat e := by
  intro text htext
  obtain ⟨rfl, rfl, hput⟩ := he
  refine ⟨hstart text htext, hstop text htext, ?_⟩
  rw [hput]
  exact put.isValidUTF8

namespace Intact

theorem ofBytes {path : Option String} {read : ByteArray → Except Location Node} {text : String}
    (hread : KeepsCharacters read) (h : Document.ofBytes path read text.toUTF8 = .ok d) :
    d.Intact := by
  unfold Document.ofBytes at h
  cases hroot : read text.toUTF8 with
  | error place =>
    rw [hroot] at h
    cases h
  | ok root =>
    rw [hroot] at h
    cases h
    refine ⟨hread, ⟨text, rfl⟩, fun text' htext => hread text' root ?_, nofun⟩
    exact (congrArg read htext).symm.trans hroot

/-- A document that has another batch of edits that part no character. -/
theorem withBatch (hd : d.Intact) {batch : Option Batch}
    (hneat : ∀ b, batch = some b → ∀ e ∈ b.edits, d.Neat e) : ({ d with batch } : Document).Intact :=
  ⟨hd.reads, hd.isText, hd.cuts, hneat⟩

theorem opened (hd : d.Intact) : d.opened.Intact := by
  refine hd.withBatch fun b hb => ?_
  cases hb
  exact List.forall_mem_nil _

theorem closed (hd : d.Intact) : d.closed.Intact := hd.withBatch nofun

/-- Whether or not it is refused, a commit of such edits leaves such a document. -/
theorem commit (hd : d.Intact) (closed : d.batch = none) (hneat : ∀ e ∈ b.edits, d.Neat e) :
    (d.commit b).2.2.Intact := by
  rcases commit_cases d b with ⟨-, h⟩ | ⟨-, -, h⟩ | ⟨-, -, root, hroot, h⟩ | ⟨-, -, place, snippet, -, h⟩
  · rw [h]
    exact hd
  · rw [h]
    exact hd
  · rw [h]
    obtain ⟨text, htext⟩ := hd.isText
    obtain ⟨outcome, houtcome⟩ : ∃ outcome : String, b.outcome d.source = outcome.toUTF8 := by
      unfold Batch.outcome
      rw [htext]
      exact ⟨⟨_, Edit.splice_isText (Script.cut_zero text) fun e he =>
        hneat e (Batch.mem_of_applied he) text htext⟩, rfl⟩
    refine ⟨hd.reads, ⟨outcome, houtcome⟩, fun text' htext' => hd.reads text' root ?_, ?_⟩
    · exact (congrArg d.read htext').symm.trans hroot
    · intro b' hb'
      rw [show d.batch = some b' from hb'] at closed
      cases closed
  · rw [h]
    exact hd

/-! ## What can be decoded -/

theorem onCuts (hd : d.Intact) (hp : p.Within d.root) {text : String}
    (htext : d.source = text.toUTF8) : p.node.OnCuts text :=
  onCuts_of_within (hd.cuts text htext) hp

theorem cuts_start (hd : d.Intact) (hp : p.Within d.root) : d.Cuts p.node.start := by
  intro text htext
  have hn := hd.onCuts hp htext
  generalize p.node = n at hn ⊢
  obtain ⟨hstart, -, -⟩ := hn
  exact hstart

theorem cuts_stop (hd : d.Intact) (hp : p.Within d.root) : d.Cuts p.node.stop := by
  intro text htext
  have hn := hd.onCuts hp htext
  generalize p.node = n at hn ⊢
  obtain ⟨-, hstop, -⟩ := hn
  exact hstop

/-- What lies between two cuts is a text. -/
theorem piece (hd : d.Intact) {start stop : Nat} (hstart : d.Cuts start) (hstop : d.Cuts stop) :
    (d.source.extract start stop).IsValidUTF8 := by
  obtain ⟨text, htext⟩ := hd.isText
  rw [htext]
  exact (hstart text htext).piece (hstop text htext)

theorem legible (hd : d.Intact) : d.Legible := by
  obtain ⟨text, htext⟩ := hd.isText
  exact fun p hp => textOf_of_onCuts htext (hd.onCuts hp htext)

end Intact

theorem cuts_zero (d : Document) : d.Cuts 0 := fun text _ => Script.cut_zero text

theorem decode_of_isText {bytes : ByteArray} (h : bytes.IsValidUTF8) :
    ∃ text : String, decode bytes = .ok text ∧ bytes = text.toUTF8 :=
  ⟨⟨bytes, h⟩, Conversion.decode_ok.mpr rfl, rfl⟩

theorem Intact.code (hd : d.Intact) : ∃ text : String, d.code = .ok text ∧ d.source = text.toUTF8 := by
  obtain ⟨text, htext⟩ := hd.isText
  exact ⟨text, Conversion.decode_ok.mpr htext, htext⟩

theorem Intact.linesBefore (hd : d.Intact) (offset : Nat) :
    ∃ above, d.linesBefore offset = .ok above := by
  obtain ⟨head, hhead, -⟩ := decode_of_isText (hd.piece d.cuts_zero (d.cuts_lineStart offset))
  refine ⟨(Blank.lines head).reverse.map Blank.trim, ?_⟩
  unfold Document.linesBefore slice
  rw [hhead]
  rfl

/-- Spaces and tabs stand for themselves, so the indentation is the text of its bytes. -/
theorem decode_indentation (d : Document) (offset : Nat) :
    ∃ stop, decode (d.source.extract (d.lineStart offset) stop) = .ok (d.indentation offset) := by
  generalize hline : (d.source.extract (d.lineStart offset) offset).data.toList = line
  have hprefix : line.takeWhile (fun b => b == 32 || b == 9) <+:
      d.source.data.toList.drop (d.lineStart offset) := by
    refine (List.takeWhile_prefix _).trans ?_
    rw [← hline, Edit.toList_extract]
    exact List.take_prefix _ _
  have hindent : d.indentation offset = String.ofList
      ((line.takeWhile fun b => b == 32 || b == 9).map fun b => Char.ofNat b.toNat) := by
    have hlist : (d.source.extract (d.lineStart offset) offset).toList = line :=
      by rw [ByteArray.toList, toList_loop, List.reverse_nil, List.nil_append, List.drop_zero, hline]
    unfold indentation
    rw [hlist]
  generalize hblanks : (line.takeWhile fun b => b == 32 || b == 9) = blanks at hprefix hindent
  have hnarrow : ∀ b ∈ blanks, b.toNat < 128 := by
    intro b hb
    rw [← hblanks] at hb
    rcases Bool.or_eq_true_iff.mp (List.all_eq_true.mp List.all_takeWhile b hb) with heq | heq
    · rw [beq_iff_eq.mp heq]
      decide
    · rw [beq_iff_eq.mp heq]
      decide
  refine ⟨d.lineStart offset + blanks.length, Conversion.decode_ok.mpr ?_⟩
  rw [hindent, String.toUTF8_eq_toByteArray, String.toByteArray_ofList, utf8Encode_of_narrow hnarrow]
  refine ByteArray.ext (Array.ext' ?_)
  rw [Edit.toList_extract, Nat.add_sub_cancel_left]
  exact (List.prefix_iff_eq_take.mp hprefix).symm

end Document

end TestMigration
