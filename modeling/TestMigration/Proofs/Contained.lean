import TestMigration.Proofs.Intact
import TestMigration.Proofs.Reannotating
import TestMigration.Proofs.RoundTrip

/-! Comments that stay on their line. Whatever is quoted in a comment, it begins with the marker, no end of
line is in it, of a script or of a text that is split into lines, and no blank at its ends. So a script's
reader takes it as one comment that ends where its line does, and whoever reads the lines in front of the
statement below it finds it as it was put there. -/

namespace TestMigration

open Script (Place Location)

/-! ## The comment in a script -/

namespace Script

/-- The characters at which a line of a script ends. -/
def isTerminator (c : Char) : Bool := c == '\n' || c == '\r' || c == '\u2028' || c == '\u2029'

namespace Input

variable {i : Input} {p : Nat} {c : Char} {cs : List Char}

theorem holdsBytes_of_drop {bs rest : List UInt8} (h : i.bytes.data.toList.drop p = bs ++ rest) :
    i.holdsBytes bs p = true := by
  induction bs generalizing p with
  | nil => rfl
  | cons b bs ih =>
    have hlt : p < i.bytes.data.toList.length := by
      by_contra hge
      rw [List.drop_eq_nil_of_le (Nat.le_of_not_lt hge)] at h
      cases h
    rw [List.drop_eq_getElem_cons hlt] at h
    obtain ⟨hbyte, hrest⟩ := List.cons.inj h
    have hget : i.bytes.get! p = b := (getElem!_pos i.bytes.data p hlt).trans hbyte
    have hsize : p < i.bytes.size := hlt
    unfold holdsBytes
    rw [ih hrest, hget, decide_eq_true hsize, beq_self_eq_true]
    rfl

theorem Spells.holdsAt {text : String} (h : i.Spells p text.toList) : i.holdsAt p text = true := by
  obtain ⟨rest, h⟩ := h
  have hlist := congrArg (fun bytes : ByteArray => bytes.data.toList) h
  have hall : (i.bytes.data.toList.drop p).length ≤ i.bytes.size - p := by
    rw [List.length_drop]
    rfl
  simp only [Edit.toList_extract, List.take_of_length_le hall, ByteArray.data_append, Array.toList_append,
    String.utf8Encode_toList] at hlist
  exact @holdsBytes_of_drop i p _ rest.data.toList hlist

/-- The run ends in front of the first character that fails the test. -/
theorem Spells.skipWhile_eq {test : Char → Bool} (h : i.Spells p (cs ++ [c])) (hcs : ∀ d ∈ cs, test d = true)
    (hc : test c = false) {fuel : Nat} (hfuel : cs.length < fuel) :
    i.skipWhile test fuel p = p + cs.utf8Encode.size := by
  induction cs generalizing p fuel with
  | nil =>
    obtain ⟨fuel, rfl⟩ : ∃ n, fuel = n + 1 := ⟨fuel - 1, by rw [List.length_nil] at hfuel; omega⟩
    unfold skipWhile
    rw [Spells.char? h]
    dsimp only
    rw [if_neg (by rw [hc]; exact Bool.false_ne_true)]
    rfl
  | cons d cs ih =>
    obtain ⟨hd, hcs⟩ := List.forall_mem_cons.mp hcs
    obtain ⟨fuel, rfl⟩ : ∃ n, fuel = n + 1 := ⟨fuel - 1, by rw [List.length_cons] at hfuel; omega⟩
    unfold skipWhile
    rw [Spells.char? h]
    dsimp only
    rw [if_pos hd, ih h.tail hcs (Nat.lt_of_succ_lt_succ hfuel), size_cons, Nat.add_assoc]

/-- A comment of a line ends where the line does. -/
theorem commentStop?_of_spells {s : String} (hmark : "//".toList <+: s.toList)
    (hs : ∀ c ∈ s.toList, isTerminator c = false) (h : i.Spells p (s.toList ++ ['\n'])) :
    i.commentStop? p = some (p + s.utf8ByteSize) := by
  obtain ⟨more, hmore⟩ := hmark
  have hmarker : "//".toList.utf8Encode.size = 2 := by decide
  have hbytes : s.utf8ByteSize = 2 + more.utf8Encode.size := by
    rw [← hmarker, ← ByteArray.size_append, ← List.utf8Encode_append, hmore, String.utf8Encode_toList]
    rfl
  rw [← hmore, List.append_assoc] at h
  obtain ⟨hhead, hbehind⟩ := h.of_append
  rw [hmarker] at hbehind
  have hrun : i.skip (fun c => c != '\n' && c != '\r' && c != '\u2028' && c != '\u2029') (p + 2) =
      p + 2 + more.utf8Encode.size := by
    refine hbehind.skipWhile_eq (fun c hc => ?_) rfl ?_
    · have hplain := hs c (hmore ▸ List.mem_append_right _ hc)
      simp only [isTerminator, Bool.or_eq_false_iff] at hplain
      simp [bne, hplain]
    · have hsize := hbehind.le_size
      have hlength := length_le_size (more ++ ['\n'])
      rw [List.length_append, List.length_singleton] at hlength
      omega
  unfold commentStop?
  rw [if_pos (Spells.holdsAt hhead), hrun, hbytes, Nat.add_assoc]

end Input

end Script

/-! ## The lines in front of what stands below a comment -/

namespace Blank

variable {s : String} {ds : List Char}

/-- What has no end of line in it ends the last line of what it is put behind. -/
theorem linesFrom_ends (hne : ds ≠ []) (hds : ∀ c ∈ ds, isLineBreak c = false) (cs begun : List Char) :
    ∃ init lead, linesFrom false (cs ++ (ds ++ ['\n'])) begun = init ++ [String.ofList (lead ++ ds)] := by
  induction cs, begun using linesFrom.induct with
  | case1 => exact ⟨[], [], linesFrom_line hds []⟩
  | case2 begun _ => exact ⟨[], begun.reverse, linesFrom_line hds begun⟩
  | case3 rest begun ih =>
    obtain ⟨init, lead, hlines⟩ := ih
    refine ⟨String.ofList begun.reverse :: init, lead, ?_⟩
    rw [List.cons_append, List.cons_append, linesFrom_pair, hlines, List.cons_append]
  | case4 c rest begun hpair hbreak ih =>
    obtain ⟨init, lead, hlines⟩ := ih
    refine ⟨String.ofList begun.reverse :: init, lead, ?_⟩
    rw [List.cons_append, linesFrom_break hbreak, hlines, List.cons_append]
    intro hreturn rest' hsame
    cases rest with
    | nil =>
      -- a line feed right behind the carriage return would be the first character of what is put there
      obtain ⟨d, ds, rfl⟩ := List.exists_cons_of_ne_nil hne
      obtain ⟨rfl, -⟩ := List.cons.inj hsame
      exact absurd (hds '\n' List.mem_cons_self) (by decide)
    | cons c rest =>
      obtain ⟨rfl, -⟩ := List.cons.inj hsame
      exact hpair rest hreturn rfl
  | case5 c rest begun hpair hbreak ih =>
    obtain ⟨init, lead, hlines⟩ := ih
    exact ⟨init, lead, (linesFrom_plain (Bool.not_eq_true _ ▸ hbreak)).trans hlines⟩

theorem lines_ends (hne : s ≠ "") (hs : ∀ c ∈ s.toList, isLineBreak c = false) (a : String) :
    ∃ init lead, lines (a ++ s ++ "\n") = init ++ [lead ++ s] := by
  obtain ⟨init, lead, hlines⟩ := linesFrom_ends (mt String.toList_eq_nil_iff.mp hne) hs a.toList []
  refine ⟨init, String.ofList lead, ?_⟩
  unfold lines
  rw [String.append_assoc, String.toList_append, String.toList_append]
  refine hlines.trans ?_
  rw [String.ofList_append, String.ofList_toList]

/-- Only in front of it are blanks taken off. -/
theorem trim_ends (hne : s ≠ "") (hfirst : ∀ c ∈ s.toList.head?, isBlank c = false)
    (hlast : ∀ c ∈ s.toList.getLast?, isBlank c = false) (lead : String) :
    ∃ lead', trim (lead ++ s) = lead' ++ s := by
  have hdrop : (lead.toList ++ s.toList).dropWhile isBlank = lead.toList.dropWhile isBlank ++ s.toList := by
    rw [List.dropWhile_append]
    split
    · rename_i hnone
      rw [List.isEmpty_iff.mp hnone, List.nil_append, dropWhile_of_head hfirst]
    · rfl
  have hend : ∀ c ∈ (lead.toList.dropWhile isBlank ++ s.toList).reverse.head?, isBlank c = false := by
    rwa [List.head?_reverse, List.getLast?_append_of_ne_nil _ (mt String.toList_eq_nil_iff.mp hne)]
  refine ⟨String.ofList (lead.toList.dropWhile isBlank), ?_⟩
  unfold trim trimBy
  rw [String.toList_append, hdrop, dropWhile_of_head hend, List.reverse_reverse, String.ofList_append,
    String.ofList_toList]

end Blank

/-! ## A comment that is put in -/

namespace Insertion

variable {source : ByteArray} {i : Insertion} {offset : Nat}

theorem movedStart_one (hoffset : i.1 ≤ offset) : movedStart [i] offset = offset + i.2.utf8ByteSize := by
  simp [movedStart, sizeAt, hoffset]

/-- Behind an insertion the text is the old one. -/
theorem extract_made_one (hoffset : i.1 ≤ offset) (hsize : offset ≤ source.size) :
    ((made source [i]).extract 0 (offset + i.2.utf8ByteSize)).data.toList =
      (source.extract 0 i.1).data.toList ++ i.2.toUTF8.data.toList ++ (source.extract i.1 offset).data.toList := by
  have hput : bytesAt [i] i.1 = i.2.toUTF8.data.toList := by
    simp [bytesAt]
  have hbefore : bytesBefore source [i] i.1 = (source.extract 0 i.1).data.toList := by
    rcases Nat.eq_zero_or_pos i.1 with hzero | hpos
    · rw [hzero, ByteArray.extract_eq_empty_iff.mpr (by omega)]
      rfl
    · have hnone : bytesAt [i] 0 = [] := by
        simp [bytesAt, hpos.ne']
      rw [bytesBefore_of_clear (List.forall_mem_singleton.mpr (.inr (Nat.le_refl _))) hpos (hoffset.trans hsize),
        hnone]
      rfl
  rw [← movedStart_one hoffset, extract_made_zero (List.forall_mem_singleton.mpr (hoffset.trans hsize)) hsize,
    bytesBefore_at_of_clear (List.forall_mem_singleton.mpr (.inl (Nat.le_refl _))) hoffset hsize, hput, hbefore]

end Insertion

namespace Document

variable {d : Document} {p : Place} {offset : Nat} {front line : List UInt8} {ls : List String} {s : String}

/-- What is on the line of the offset itself does not count. -/
theorem linesBefore_of_extract (hsize : offset ≤ d.source.size)
    (hbytes : (d.source.extract 0 offset).data.toList = front ++ line) (hfront : HasLines front ls)
    (hline : ∀ b ∈ line, b ≠ 10) : d.linesBefore offset = .ok ls.reverse := by
  have hstart : d.lineStart offset = front.length :=
    (beginsLine_of_le hsize).unique (beginsLine_of_extract hsize hbytes hfront hline)
  have hfrontSize : front.length ≤ offset := hstart ▸ (beginsLine_of_le hsize).le
  have hhead : (d.source.extract 0 front.length).data.toList = front := by
    have htake := congrArg (List.take front.length) hbytes
    rwa [List.take_left, Edit.toList_extract, List.take_take, Nat.sub_zero, Nat.min_eq_left hfrontSize,
      ← Nat.sub_zero front.length, ← Edit.toList_extract] at htake
  exact linesBefore_of_hasLines (hstart.symm ▸ hhead.symm ▸ hfront)

theorem insertionOf_le_start (hstart : p.node.start ≤ d.source.size) :
    (d.insertionOf (p, s)).1 ≤ p.node.start := by
  unfold insertionOf
  dsimp only
  split
  · exact (beginsLine_of_le hstart).le
  · exact Nat.le_refl _

theorem records_insertBefore_alone (hinside : (d.insertionOf (p, s)).1 ≤ d.source.size) :
    Records ((d.handle p).insertBefore (.ofString s)) d (.open' d.generation) ()
      (.holding d.generation [(d.insertionOf (p, s)).replacement]) := by
  refine records_look_bind (Handle.plain_node _) Handle.node_handle ?_
  unfold Records
  rw [Document.bind_apply, Document.get_apply]
  change Records (if d.Leads p.node.start then _ else _ : Editing Unit) d _ () _
  have hadd : ∀ {start : Int} {text : Text}, start = (d.insertionOf (p, s)).1 →
      text = .ofString (d.insertionOf (p, s)).2 → Records (Document.recordEdit start start text false) d
        (.open' d.generation) () (.holding d.generation [(d.insertionOf (p, s)).replacement]) := by
    rintro _ _ rfl rfl
    exact records_recordEdit_of_add (@Batch.add_holding _ _ [] (d.insertionOf (p, s)).replacement
      ⟨Nat.le_refl _, hinside⟩ (List.not_mem_nil))
  by_cases hlead : d.Leads p.node.start
  · rw [if_pos hlead]
    refine hadd ?_ ?_
    · unfold insertionOf
      dsimp only
      rw [if_pos hlead]
      rfl
    · unfold insertionOf
      dsimp only
      rw [if_pos hlead, Text.ofString_append, Text.ofString_append]
      rfl
  · rw [if_neg hlead]
    refine hadd ?_ ?_
    · unfold insertionOf
      dsimp only
      rw [if_neg hlead]
    · unfold insertionOf
      dsimp only
      rw [if_neg hlead, Text.ofString_append, Text.ofString_append, List.append_assoc]
      rfl

/-- What is in front of a line are whole lines. -/
theorem hasLines_lineStart {text : String} (htext : d.source = text.toUTF8) (hsize : offset ≤ d.source.size) :
    ∃ ls, HasLines (d.source.extract 0 (d.lineStart offset)).data.toList ls := by
  have hline := beginsLine_of_le hsize
  rcases Nat.eq_zero_or_pos (d.lineStart offset) with hzero | hpos
  · rw [hzero, ByteArray.extract_eq_empty_iff.mpr (by omega)]
    exact ⟨[], .nil⟩
  · rw [htext] at hline hsize ⊢
    exact hasLines_extract (.inl rfl) hline.begins hpos (hline.le.trans hsize)

theorem indentation_unbroken (d : Document) (offset : Nat) :
    ∀ b ∈ (d.indentation offset).toUTF8.data.toList, b ≠ 10 := by
  intro b hb hfeed
  rw [Script.toList_toUTF8] at hb
  obtain ⟨c, hc, hb⟩ := List.mem_flatMap.mp hb
  have hchar := Script.toNat_of_mem_utf8EncodeChar hb
  rw [hfeed] at hchar
  rcases indentation_blank d offset c hc with rfl | rfl <;> revert hchar <;> decide

section Inserted

variable {d' : Document} (hmade : d'.source = Insertion.made d.source [d.insertionOf (p, s)])

include hmade

theorem extract_insertion (hstart : p.node.start ≤ d.source.size) :
    p.node.start + (d.insertionOf (p, s)).2.utf8ByteSize ≤ d'.source.size ∧
      (d'.source.extract 0 (p.node.start + (d.insertionOf (p, s)).2.utf8ByteSize)).data.toList =
        (d.source.extract 0 (d.insertionOf (p, s)).1).data.toList ++ (d.insertionOf (p, s)).2.toUTF8.data.toList ++
          (d.source.extract (d.insertionOf (p, s)).1 p.node.start).data.toList := by
  have hinside := insertionOf_le_start (s := s) hstart
  rw [hmade]
  refine ⟨?_, Insertion.extract_made_one hinside hstart⟩
  rw [← Insertion.movedStart_one hinside]
  exact Insertion.movedStart_le_size (List.forall_mem_singleton.mpr (hinside.trans hstart)) hstart

/-- Above what leads its line the comment is the nearest line. -/
theorem linesBefore_of_leads {text : String} (htext : d.source = text.toUTF8) (hstart : p.node.start ≤ d.source.size)
    (hone : Guidance.OneLine s) (hlead : d.Leads p.node.start) :
    ∃ above, d.linesBefore p.node.start = .ok above ∧
      d'.linesBefore (p.node.start + (d.insertionOf (p, s)).2.utf8ByteSize) = .ok (s :: above) := by
  obtain ⟨hsize, hbytes⟩ := extract_insertion hmade hstart
  obtain ⟨hwrites, hcomment, hfirst⟩ := @insertionOf_leads d (p, s) hlead hone
  obtain ⟨ls, hls⟩ := hasLines_lineStart htext hstart
  dsimp only at hfirst
  rw [hfirst] at hbytes
  refine ⟨ls.reverse, linesBefore_of_hasLines hls, ?_⟩
  rw [linesBefore_of_extract hsize hbytes (hls.append (hasLines_of_writes hwrites)) (beginsLine_of_le hstart).unbroken,
    hcomment, List.reverse_append]
  rfl

/-- Between the parts of a line the comment ends the part in front of it. -/
theorem linesBefore_of_behind {before : String} (hbefore : d.source.extract 0 p.node.start = before.toUTF8)
    (hstart : p.node.start ≤ d.source.size) (hmarks : Guidance.Marks (.ofString s)) (hlead : ¬ d.Leads p.node.start) :
    ∃ lead above,
      d'.linesBefore (p.node.start + (d.insertionOf (p, s)).2.utf8ByteSize) = .ok ((lead ++ s) :: above) := by
  have hone := Guidance.oneLine_of_marks hmarks
  have hne : s ≠ "" := by
    rintro rfl
    exact absurd hone.marked (by decide)
  obtain ⟨hfirst, hlast⟩ := (Guidance.folded_of_marks hmarks).ends
  obtain ⟨init, lead, hlines⟩ := Blank.lines_ends hne hone.unbroken before
  obtain ⟨lead', htrim⟩ := Blank.trim_ends hne hfirst hlast lead
  have hfront : HasLines (before ++ s ++ "\n").toUTF8.data.toList (init.map Blank.trim ++ [lead' ++ s]) := by
    refine ⟨_, rfl, .inr ⟨_, rfl⟩, ?_⟩
    rw [hlines, List.map_append, List.map_singleton, htrim]
  have hinsertion : d.insertionOf (p, s) = (p.node.start, s ++ "\n" ++ d.indentation p.node.start) := if_neg hlead
  obtain ⟨hsize, hbytes⟩ := extract_insertion hmade hstart
  refine ⟨lead', (init.map Blank.trim).reverse, ?_⟩
  rw [linesBefore_of_extract hsize ?_ hfront (d.indentation_unbroken p.node.start), List.reverse_append]
  · rfl
  · rw [hbytes, hinsertion]
    dsimp only
    rw [hbefore, ByteArray.extract_eq_empty_iff.mpr (by omega), show ByteArray.empty.data.toList = [] from rfl]
    simp only [String.toUTF8_eq_toByteArray, String.toByteArray_append, ByteArray.data_append, Array.toList_append,
      List.append_assoc, List.append_nil]

end Inserted

/-- A comment that is put before a node is found there by whoever reads the lines in front of the node, and as
the line right above if the node leads its line. If the text with it cannot be read, nothing is changed. -/
def ReadsBack (d : Document) (p : Place) (s : String) : Prop :=
  match batched ((d.handle p).insertBefore (.ofString s)) d with
  | .ok _ d' => d'.source = Insertion.made d.source [d.insertionOf (p, s)] ∧
    ∃ lead above, d'.linesBefore (p.node.start + (d.insertionOf (p, s)).2.utf8ByteSize) = .ok ((lead ++ s) :: above) ∧
      (d.Leads p.node.start → lead = "" ∧ d.linesBefore p.node.start = .ok above)
  | .error e d' => d' = d ∧ ∃ place snippet,
    d.read (Insertion.made d.source [d.insertionOf (p, s)]) = .error place ∧ e = .invalidEdit place snippet

theorem readsBack_of_marks (hd : d.Intact) (closed : d.batch = none) (hp : p.Within d.root)
    (hmarks : Guidance.Marks (.ofString s)) : d.ReadsBack p s := by
  obtain ⟨text, htext⟩ := hd.isText
  have hstart : p.node.start ≤ d.source.size := htext ▸ (hd.cuts_start hp text htext).le_size
  have hrecords := records_insertBefore_alone (s := s) ((insertionOf_le_start hstart).trans hstart)
  have houtcome := (Batch.outcome_insertions d.generation d.source [d.insertionOf (p, s)]).1
  unfold ReadsBack
  rcases batched_of_records (Handle.made_insertBefore _ _) closed hrecords with
    ⟨hnone, -⟩ | ⟨-, root, hread, hrun⟩ | ⟨-, place, snippet, hread, hrun⟩
  · cases hnone
  · rw [hrun]
    have hmade : (d.reread ((Batch.holding d.generation [(d.insertionOf (p, s)).replacement]).outcome d.source)
      root).source = Insertion.made d.source [d.insertionOf (p, s)] := houtcome
    refine ⟨hmade, ?_⟩
    by_cases hlead : d.Leads p.node.start
    · obtain ⟨above, hold, hnew⟩ := linesBefore_of_leads hmade htext hstart (Guidance.oneLine_of_marks hmarks) hlead
      refine ⟨"", above, ?_, fun _ => ⟨rfl, hold⟩⟩
      rw [String.empty_append]
      exact hnew
    · obtain ⟨before, -, hbefore⟩ := decode_of_isText (hd.piece d.cuts_zero (hd.cuts_start hp))
      obtain ⟨lead, above, hnew⟩ := linesBefore_of_behind hmade hbefore hstart hmarks hlead
      exact ⟨lead, above, hnew, fun h => absurd h hlead⟩
  · rw [hrun]
    exact ⟨rfl, place, snippet, houtcome ▸ hread, rfl⟩

end Document

/-! ## Comments that are built -/

namespace Guidance

open Document (batched sound_of_ofBytes within_of_mem_places)

/-- The comments: on a method of a wrapper, on a selector, and on an event. -/
inductive Builds : Text → Prop
  | onMethod (wrapper method : String) (argument : Option String) : Builds (onMethod wrapper method argument)
  | onSelector {argument attr : String} {selector : Option Text} {snapshot : Option Snapshot} {t : Text} :
    onSelector argument selector attr snapshot = .ok t → Builds t
  | onEvent (argument : String) : Builds (onEvent argument)

/-- A comment that stays on its line: it begins with the marker, no end of line of a script or of a text is in
it, and no blank at its ends. The reader of a script takes it as one comment that ends where its line does, and
whoever reads the lines in front of what it is put before finds it unchanged. -/
structure StaysOnLine (t : Text) : Prop where
  marked : Text.ofString marker <+: t
  unbroken : ∀ g ∈ t, g.satisfies Script.isTerminator = false ∧ g.satisfies isLineBreak = false
  trimmed : Blank.trimBy (Glyph.satisfies isBlank) t = t
  token : ∀ s, t = .ofString s → ∀ (i : Script.Input) (p : Nat), i.Spells p (s.toList ++ ['\n']) →
    i.commentStop? p = some (p + s.utf8ByteSize)
  readBack : ∀ s, t = .ofString s → ∀ (d : Document) (p : Place), d.Intact → d.batch = none → p.Within d.root →
    d.ReadsBack p s

variable {t : Text}

theorem marks_of_builds (h : Builds t) : Marks t := by
  cases h with
  | onMethod wrapper method argument => exact marks_onMethod wrapper method argument
  | onSelector h => exact marks_onSelector h
  | onEvent argument => exact marks_onEvent argument

theorem isBlank_of_isTerminator {c : Char} (h : Script.isTerminator c = true) : isBlank c = true := by
  unfold Script.isTerminator at h
  simp only [Bool.or_eq_true, beq_iff_eq] at h
  rcases h with ((rfl | rfl) | rfl) | rfl <;> rfl

/-- The only blanks of a folded text are spaces, which end no line. -/
theorem Folded.satisfies_eq_false (h : Folded t) {test : Char → Bool} (htest : ∀ c, test c = true → isBlank c = true)
    (hspace : test ' ' = false) : ∀ g ∈ t, g.satisfies test = false := by
  intro g hg
  by_contra hends
  have hblank : g.satisfies isBlank = true := by
    cases g with
    | char c => exact htest c (Bool.not_eq_false _ ▸ hends)
    | lone n => cases Bool.not_eq_false _ ▸ hends
  rw [h.spaces g hg hblank] at hends
  exact hends hspace

theorem stays_of_builds (h : Builds t) : StaysOnLine t := by
  have hmarks := marks_of_builds h
  have hfolded := folded_of_marks hmarks
  have hends := hfolded.satisfies_eq_false (fun _ => isBlank_of_isTerminator) (by decide)
  have hbreaks := hfolded.satisfies_eq_false (fun _ => isBlank_of_isLineBreak) (by decide)
  refine ⟨hfolded.marked, fun g hg => ⟨hends g hg, hbreaks g hg⟩,
    Blank.trimBy_eq_self hfolded.first hfolded.last, ?_, ?_⟩
  · rintro s rfl i p hspells
    refine Script.Input.commentStop?_of_spells ?_ (fun c hc => hends (.char c) (List.mem_map_of_mem hc)) hspells
    exact List.IsPrefix.trans (by decide) (oneLine_of_marks hmarks).marked
  · rintro s rfl d p hd closed hp
    exact Document.readsBack_of_marks hd closed hp hmarks

/-- The comment on a property whose name has ends of line in it. -/
def onBrokenProp : String :=
  "// Conversion suggestion: w.prop(a b // c) --> Consider querying the element and checking its property " ++
    "a b // c using screen.getBy... or screen.queryBy...."

/-- Put before a statement that leads its line, it is the line above. -/
theorem stays_of_builds_broken : onMethod "w" "prop" (some "a\u2028b\r\n\u0085// c") = .ofString onBrokenProp ∧
    StaysOnLine (.ofString onBrokenProp) ∧
    ∃ d p b d', Document.ofString none "x();\n\ty();" = .ok d ∧ p ∈ d.places ∧
      (d.textOf p.node).toOption = some "y();" ∧
      batched ((d.handle p).insertBefore (.ofString onBrokenProp)) d = .ok ((), b) d' ∧
      d'.source = ("x();\n\t" ++ onBrokenProp ++ "\n\ty();").toUTF8 ∧
      d'.linesBefore (p.node.start + (d.insertionOf (p, onBrokenProp)).2.utf8ByteSize) =
        .ok [onBrokenProp, "x();"] := by
  have hcomment : onMethod "w" "prop" (some "a\u2028b\r\n\u0085// c") = .ofString onBrokenProp := by
    unfold onMethod onBrokenProp
    simp only [Text.ofString_append]
    decide +kernel
  have hstays : StaysOnLine (.ofString onBrokenProp) := hcomment ▸ stays_of_builds (.onMethod _ _ _)
  have hchecks : (Document.ofString none "x();\n\ty();").toOption.map (fun d =>
      (d.places.find? fun p => (d.textOf p.node).toOption == some "y();").map fun p =>
        (decide (d.Leads p.node.start), (d.linesBefore p.node.start).toOption,
          match batched ((d.handle p).insertBefore (.ofString onBrokenProp)) d with
          | .ok _ d' => spelledBy ["x();\n\t", onBrokenProp, "\n\ty();"] d'.source
          | .error _ _ => false)) = some (some (true, some ["x();"], true)) := by
    decide +kernel
  obtain ⟨d, hd, hobserved⟩ := exists_of_toOption_map hchecks
  obtain ⟨p, hp, hobserved⟩ := Option.map_eq_some_iff.mp hobserved
  simp only [Prod.mk.injEq, decide_eq_true_eq] at hobserved
  obtain ⟨hlead, habove, hspelled⟩ := hobserved
  have hplace := List.mem_of_find?_eq_some hp
  have hback := hstays.readBack _ rfl d p (Document.Intact.ofBytes (keepsCharacters_parse _) hd)
    (sound_of_ofBytes hd).2 (within_of_mem_places hplace)
  refine ⟨hcomment, hstays, ?_⟩
  unfold Document.ReadsBack at hback
  split at hback
  · rename_i b d' hrun
    rw [hrun] at hspelled
    have hsource := eq_of_spelledBy hspelled
    obtain ⟨-, lead, above, hnew, hold⟩ := hback
    obtain ⟨rfl, hlines⟩ := hold hlead
    rw [hlines] at habove
    obtain rfl : above = ["x();"] := Option.some.inj habove
    have hspelt := List.find?_some (p := fun p : Place => (d.textOf p.node).toOption == some "y();") hp
    exact ⟨d, p, b.2, d', hd, hplace, beq_iff_eq.mp hspelt, hrun, hsource, hnew⟩
  · rename_i e d' hrun
    rw [hrun] at hspelled
    cases hspelled

end Guidance

end TestMigration
