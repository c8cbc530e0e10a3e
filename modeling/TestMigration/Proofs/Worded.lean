import TestMigration.Proofs.Lines
import TestMigration.Proofs.Legible

/-! Texts that stay texts. A script begins as a text of characters, and an edit that begins and ends
between characters and puts a text leaves such a text behind. So what a block leaves can be looked at
like the script that it met, as long as its edits are made from places of the tree. -/

namespace TestMigration

open Script (Node Kind Place Cut)

/-! ## Texts and edits -/

namespace Edit

/-- The edit parts no character of the text, and what it puts there is a text. -/
structure Neat (source : String) (e : Edit) : Prop where
  start : Cut source e.start
  stop : Cut source e.stop
  text : e.text.IsValidUTF8

theorem splice_isText {source : String} {cursor : Nat} {es : List Edit} (hcursor : Cut source cursor)
    (hes : ∀ e ∈ es, e.Neat source) : (splice source.toUTF8 cursor es).IsValidUTF8 := by
  induction es generalizing cursor with
  | nil => exact hcursor.piece (Script.cut_size source)
  | cons e rest ih =>
    obtain ⟨he, hrest⟩ := List.forall_mem_cons.mp hes
    exact ((hcursor.piece he.start).append he.text).append (ih he.stop hrest)

end Edit

/-! ## Blanks -/

theorem toList_loop (bytes : ByteArray) (i : Nat) (acc : List UInt8) :
    ByteArray.toList.loop bytes i acc = acc.reverse ++ bytes.data.toList.drop i := by
  have hlength : bytes.data.toList.length = bytes.size := rfl
  induction hn : bytes.size - i generalizing i acc with
  | zero =>
    rw [ByteArray.toList.loop, if_neg (by omega), List.drop_of_length_le (by omega),
      List.append_nil]
  | succ n ih =>
    have hi : i < bytes.data.toList.length := by omega
    have hget : bytes.get! i = bytes.data.toList[i] := by
      change bytes.data[i]! = _
      rw [getElem!_pos bytes.data i hi, Array.getElem_toList]
    rw [ByteArray.toList.loop, if_pos (by omega), ih (i + 1) _ (by omega), List.reverse_cons,
      List.append_assoc, List.drop_eq_getElem_cons hi, hget]
    rfl

/-- Bytes below 128 are the characters of those numbers. -/
theorem utf8Encode_of_narrow {bs : List UInt8} (h : ∀ b ∈ bs, b.toNat < 128) :
    (bs.map fun b => Char.ofNat b.toNat).utf8Encode = ⟨⟨bs⟩⟩ := by
  induction bs with
  | nil => rfl
  | cons b bs ih =>
    obtain ⟨hb, hbs⟩ := List.forall_mem_cons.mp h
    have hone := @Script.piece_one ⟨⟨[b]⟩⟩ 0 Nat.one_pos hb
    rw [List.map_cons, List.utf8Encode_cons, ih hbs]
    exact congrArg (· ++ (⟨⟨bs⟩⟩ : ByteArray)) hone.symm

theorem isText_of_narrow {bytes : ByteArray} (h : ∀ b ∈ bytes.data.toList, b.toNat < 128) :
    bytes.IsValidUTF8 := ⟨_, (utf8Encode_of_narrow h).symm⟩

theorem isText_of_blank {bytes : ByteArray} (h : bytes.toList.all isBlankByte = true) :
    bytes.IsValidUTF8 := by
  refine isText_of_narrow fun b hb => ?_
  have hall : ∀ b ∈ bytes.data.toList, isBlankByte b = true := by
    have hlist : bytes.toList = bytes.data.toList := toList_loop bytes 0 []
    rw [hlist] at h
    exact List.all_eq_true.mp h
  have hblank := hall b hb
  unfold isBlankByte at hblank
  simp only [Bool.or_eq_true, beq_iff_eq, Bool.and_eq_true, decide_eq_true_iff] at hblank
  rcases hblank with rfl | ⟨-, hle⟩
  · decide
  · have := UInt8.le_iff_toNat_le.mp hle
    change b.toNat ≤ 13 at this
    omega

/-! ## Documents -/

namespace Document

/-- The document holds a script: a text of characters, with the tree that is read from it. -/
structure Worded (d : Document) : Prop where
  text : ∃ source : String, d.source = source.toUTF8
  script : ∃ dialect, d.read = Script.parse dialect
  parses : d.read d.source = .ok d.root

variable {d d' : Document} {p : Place} {e : Edit}

theorem worded_ofString {path : Option String} {source : String}
    (h : ofString path source = .ok d) : d.Worded := by
  obtain ⟨-, hsource⟩ := Conversion.ofString_ok h
  unfold ofString ofBytes at h
  split at h
  · cases h
  · rename_i root hroot
    cases h
    exact ⟨⟨source, rfl⟩, ⟨_, rfl⟩, hroot⟩

theorem Worded.onCuts {source : String} (hd : d.Worded) (hsource : d.source = source.toUTF8)
    (hp : p.Within d.root) : p.node.OnCuts source := by
  obtain ⟨dialect, hread⟩ := hd.script
  have hparses := hd.parses
  rw [hread, hsource] at hparses
  exact onCuts_of_within (Script.onCuts_parse hparses) hp

theorem Worded.cuts {source : String} (hd : d.Worded) (hsource : d.source = source.toUTF8)
    (hp : p.Within d.root) : Cut source p.node.start ∧ Cut source p.node.stop := by
  have hn := hd.onCuts hsource hp
  generalize p.node = n at hn ⊢
  obtain ⟨hstart, hstop, -⟩ := hn
  exact ⟨hstart, hstop⟩

theorem Worded.legible (hd : d.Worded) : d.Legible := by
  obtain ⟨source, hsource⟩ := hd.text
  exact fun p hp => textOf_of_onCuts hsource (hd.onCuts hsource hp)

/-- The edit is neat in the document's text. -/
def Neat (d : Document) (e : Edit) : Prop := ∀ source : String, d.source = source.toUTF8 → e.Neat source

theorem Worded.neat_of_puts {text : String} (hd : d.Worded) (hp : p.Within d.root)
    (he : e.Puts p.node.start p.node.stop text) : d.Neat e := by
  intro source hsource
  obtain ⟨hstart, hstop, htext⟩ := he
  obtain ⟨hfirst, hlast⟩ := hd.cuts hsource hp
  refine ⟨?_, ?_, ?_⟩
  · rw [hstart]
    exact hfirst
  · rw [hstop]
    exact hlast
  · rw [htext]
    exact text.isValidUTF8

/-- What a deletion takes: a statement's line extent, of any other node just its own range. -/
def extent (d : Document) (p : Place) : Nat × Nat :=
  if (p.parent?.map (·.node.kind.holdsStatements)).getD false then Handle.lineExtent d p.node
  else (p.node.start, p.node.stop)

theorem lineStart_le (bytes : ByteArray) (p : Nat) : Script.lineStart bytes p ≤ p := by
  induction p with
  | zero => exact Nat.le_refl 0
  | succ p ih =>
    unfold Script.lineStart
    split
    · exact Nat.le_refl _
    · exact Nat.le_succ_of_le ih

theorem le_lineStop (d : Document) (p : Nat) (hp : p ≤ d.source.size) : p ≤ d.lineStop p := by
  have hfrom : ∀ fuel p, p ≤ d.source.size → p ≤ lineStopFrom d.source fuel p := by
    intro fuel
    induction fuel with
    | zero => exact fun p _ => Nat.le_refl p
    | succ fuel ih =>
      intro p hp
      unfold lineStopFrom
      split
      · split
        · exact Nat.le_succ p
        · exact Nat.le_of_succ_le (ih (p + 1) ‹_›)
      · exact hp
  exact hfrom _ p hp

/-- Blanks before a cut begin at a cut, and blanks behind one end at a cut. -/
theorem cuts_of_blank {source : String} {p q : Nat} (hpq : p ≤ q) (hq : q ≤ source.toUTF8.size)
    (hblank : (source.toUTF8.extract p q).toList.all isBlankByte = true) :
    p = q ∨ Cut source p ∧ Cut source q :=
  ((String.Pos.Raw.isValidUTF8_extract_iff (s := source) ⟨p⟩ ⟨q⟩ hpq hq).mp
    (isText_of_blank hblank)).imp_left fun h => congrArg String.Pos.Raw.byteIdx h

/-- What lies on a statement's lines besides it is blank, so no character is parted where it goes. -/
theorem Worded.neat_of_removes (hd : d.Worded) (hp : p.Within d.root)
    (he : e.Puts (d.extent p).1 (d.extent p).2 "") (hinside : e.start ≤ e.stop ∧ e.stop ≤ d.source.size) :
    d.Neat e := by
  obtain ⟨hstart, hstop, htext⟩ := he
  unfold extent at hstart hstop
  split at hstart
  case isFalse hnot =>
    rw [if_neg hnot] at hstop
    exact hd.neat_of_puts hp ⟨hstart, hstop, htext⟩
  case isTrue hholds =>
  rw [if_pos hholds] at hstop
  unfold Handle.lineExtent at hstart hstop
  dsimp only at hstart hstop
  split at hstart
  case isFalse hnot =>
    rw [if_neg hnot] at hstop
    exact hd.neat_of_puts hp ⟨hstart, hstop, htext⟩
  case isTrue hblank =>
  rw [if_pos hblank] at hstop
  dsimp only at hstart hstop
  obtain ⟨hbefore, hbehind⟩ := Bool.and_eq_true_iff.mp hblank
  intro source hsource
  obtain ⟨hfirst, hlast⟩ := hd.cuts hsource hp
  rw [hsource] at hbefore hbehind hinside
  have hle : e.start ≤ p.node.start := by
    rw [hstart]
    exact Nat.le_trans (lineStart_le _ _) (Nat.min_le_left _ _)
  rw [← hstart] at hbefore
  rw [← hstop] at hbehind
  refine ⟨?_, ?_, ?_⟩
  · rcases cuts_of_blank hle hfirst.le_size hbefore with heq | ⟨hcut, -⟩
    · rw [heq]
      exact hfirst
    · exact hcut
  · have hle : p.node.stop ≤ e.stop := by
      rw [hstop]
      refine le_lineStop d _ ?_
      rw [hsource]
      exact hlast.le_size
    rcases cuts_of_blank hle hinside.2 hbehind with heq | ⟨-, hcut⟩
    · rw [← heq]
      exact hlast
    · exact hcut
  · rw [htext]
    exact ByteArray.isValidUTF8_empty

end Document

/-! ## Blocks -/

section

variable {α : Type} {d d' : Document} {b b' : Batch}

/-- A deletion puts nothing in the place of what it takes. -/
theorem records_remove {p : Place} {u : Unit} (hr : Records (d.handle p).remove d b u b') :
    (∃ e ∈ b'.edits, e.Puts (d.extent p).1 (d.extent p).2 "") ∧
      ∀ e ∈ b'.edits, e ∈ b.edits ∨ e.Puts (d.extent p).1 (d.extent p).2 "" := by
  obtain ⟨n, hn, hr⟩ := hr.look_bind (d.handle p).plain_node
  rw [Handle.node_handle] at hn
  cases hn
  unfold Records at hr
  rw [Document.bind_apply, Document.get_apply] at hr
  change Records (do
      let statement ← ((d.handle p).isStatement : Looking _)
      let range := if statement then Handle.lineExtent d p.node else (p.node.start, p.node.stop)
      Document.recordEdit range.1 range.2 [] false) d b u b' at hr
  obtain ⟨statement, hstatement, hr⟩ := hr.look_bind (d.handle p).plain_isStatement
  obtain rfl : statement = (p.parent?.map (·.node.kind.holdsStatements)).getD false := by
    have heq := look_bind_eq (f := fun place : Place =>
      (pure ((place.parent?.map (·.node.kind.holdsStatements)).getD false) : Looking Bool))
      (Handle.fresh_handle (d := d) (p := p)) rfl
    exact Except.ok.inj (hstatement.symm.trans heq)
  obtain ⟨s, hs, hputs⟩ := records_recordEdit hr
  obtain rfl : "" = s := Option.some.inj hs
  unfold Document.extent
  exact hputs

/-- What makes neat edits of a script leaves a script. -/
theorem Made.worded {m : Editing α} (hm : Made m) (hd : d.Worded) {a : α} (h : m d = .ok a d')
    {applied : List Edit} (hsource : d'.source = Edit.splice d.source 0 applied)
    (hneat : ∀ e ∈ applied, d.Neat e) : d'.Worded := by
  obtain ⟨p, rfl, -⟩ := hm
  have hsound := p.after_sound ⟨rfl, hd.parses, rfl⟩
  rw [Program.after_of_ok h] at hsound
  obtain ⟨source, htext⟩ := hd.text
  have hresult := Edit.splice_isText (Script.cut_zero source) fun e he => hneat e he source htext
  rw [← htext, ← hsource] at hresult
  refine ⟨⟨⟨_, hresult⟩, rfl⟩, ?_, ?_⟩
  · rw [hsound.reads]
    exact hd.script
  · rw [hsound.reads]
    exact hsound.parses

/-- A block that makes neat edits of a script leaves a script. -/
theorem batched_worded {body : Editing α} (hb : Made body) (closed : d.batch = none)
    (hd : d.Worded) {a : α} {spent : Batch} (h : Document.batched body d = .ok (a, spent) d')
    (hneat : ∀ b, Records body d (.open' d.generation) a b → ∀ e ∈ b.edits, d.Neat e) :
    d'.Worded := by
  obtain ⟨b, hrecords, hsource, -, -, -⟩ := batched_records hb closed h
  exact (made_batched hb).worded hd h hsource fun e he => hneat b hrecords e (Batch.mem_of_applied he)

end

/-! ## Runs on a script -/

namespace Pass

variable {α β : Type} {pass : Pass α}

/-- What is observed of a run of the pass on a script. -/
def onScript? (pass : Pass α) (source : String) (observe : Document → α → Session → β) : Option β :=
  match Document.ofString none source with
  | .error _ => none
  | .ok d =>
    match pass ⟨d, none, []⟩ with
    | .error _ _ => none
    | .ok a s => some (observe d a s)

theorem exists_of_onScript? {source : String} {observe : Document → α → Session → β} {b : β}
    (h : pass.onScript? source observe = some b) :
    ∃ d a s, Document.ofString none source = .ok d ∧ pass ⟨d, none, []⟩ = .ok a s ∧ observe d a s = b := by
  unfold onScript? at h
  split at h
  · cases h
  · rename_i d hd
    split at h
    · cases h
    · rename_i a s hs
      exact ⟨d, a, s, hd, hs, Option.some.inj h⟩

/-- What the pass yields, and the text that it leaves. -/
def yield? (pass : Pass α) (s : Session) : Option (α × ByteArray) :=
  match pass s with
  | .error _ _ => none
  | .ok a s' => some (a, s'.document.source)

theorem exists_of_yield? {s : Session} {a : α} {text : ByteArray} (h : pass.yield? s = some (a, text)) :
    ∃ s', pass s = .ok a s' ∧ s'.document.source = text := by
  unfold yield? at h
  split at h
  · cases h
  · rename_i s' hs
    cases h
    exact ⟨s', hs, rfl⟩

end Pass

end TestMigration
