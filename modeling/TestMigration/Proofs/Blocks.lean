import TestMigration.Proofs.Comments
import TestMigration.Proofs.Extents
import TestMigration.Proofs.Shifting
import TestMigration.Proofs.Worded

/-! Blocks of comments. Whole lines that hold a comment each are put into a text where its lines begin.
Between lines of a block they make it longer, so all that stood in the block above a line stands there
still, and with it what was put right above the line. -/

namespace TestMigration

/-! ## Lists with more elements -/

/-- The second list is the first one with more elements in between, for which the test holds. -/
inductive Interspersed {α : Type} (test : α → Bool) : List α → List α → Prop where
  | nil : Interspersed test [] []
  | both (x : α) {old new : List α} : Interspersed test old new → Interspersed test (x :: old) (x :: new)
  | more (x : α) {old new : List α} : test x = true → Interspersed test old new → Interspersed test old (x :: new)

namespace Interspersed

variable {α : Type} {test : α → Bool} {old new old' new' : List α} {x : α}

theorem append (h : Interspersed test old new) (h' : Interspersed test old' new') :
    Interspersed test (old ++ old') (new ++ new') := by
  induction h with
  | nil => exact h'
  | both x _ ih => exact .both x ih
  | more x hx _ ih => exact .more x hx ih

theorem refl (xs : List α) : Interspersed test xs xs := by
  induction xs with
  | nil => exact .nil
  | cons x xs ih => exact .both x ih

theorem of_all {xs : List α} (h : ∀ x ∈ xs, test x = true) : Interspersed test [] xs := by
  induction xs with
  | nil => exact .nil
  | cons x xs ih => exact .more x (h x List.mem_cons_self) (ih fun y hy => h y (List.mem_cons_of_mem _ hy))

theorem reverse (h : Interspersed test old new) : Interspersed test old.reverse new.reverse := by
  induction h with
  | nil => exact .nil
  | both x _ ih =>
    rw [List.reverse_cons, List.reverse_cons]
    exact ih.append (.refl [x])
  | @more x old new hx _ ih =>
    rw [List.reverse_cons, ← List.append_nil old.reverse]
    exact ih.append (.more x hx .nil)

/-- Of what comes first and passes the test nothing is lost. -/
theorem mem_takeWhile (h : Interspersed test old new) (hx : x ∈ old.takeWhile test) : x ∈ new.takeWhile test := by
  induction h with
  | nil => exact hx
  | both y _ ih =>
    rw [List.takeWhile_cons] at hx ⊢
    split at hx
    · rename_i hy
      rw [if_pos hy]
      rcases List.mem_cons.mp hx with rfl | hx
      · exact List.mem_cons_self
      · exact List.mem_cons_of_mem _ (ih hx)
    · cases hx
  | more y hy _ ih =>
    rw [List.takeWhile_cons, if_pos hy]
    exact List.mem_cons_of_mem _ (ih hx)

end Interspersed

/-! ## Lines -/

namespace Blank

variable {a b s indent : String} {cs ds : List Char} {begun : List Char}

theorem linesFrom_plain {c : Char} {rest : List Char} (hc : isLineBreak c = false) :
    linesFrom false (c :: rest) begun = linesFrom false rest (c :: begun) := by
  have hreturn : c ≠ '\r' := by
    rintro rfl
    cases hc
  rw [linesFrom]
  · rw [if_neg (by rw [hc]; exact Bool.false_ne_true)]
  · exact fun _ h => absurd h hreturn

theorem linesFrom_break {c : Char} {rest : List Char} (hc : isLineBreak c = true)
    (hpair : c = '\r' → ∀ rest', rest ≠ '\n' :: rest') :
    linesFrom false (c :: rest) begun = String.ofList begun.reverse :: linesFrom false rest [] := by
  rw [linesFrom]
  · rw [if_pos hc]
    rfl
  · exact fun rest' h => hpair h rest'

theorem linesFrom_pair (rest : List Char) :
    linesFrom false ('\r' :: '\n' :: rest) begun = String.ofList begun.reverse :: linesFrom false rest [] := by
  rw [linesFrom]
  rfl

/-- Behind a line feed the lines begin anew. -/
theorem linesFrom_append (cs ds begun : List Char) : linesFrom false (cs ++ '\n' :: ds) begun =
    linesFrom false (cs ++ ['\n']) begun ++ linesFrom false ds [] := by
  have hfeed : ∀ begun ds, linesFrom false ('\n' :: ds) begun = String.ofList begun.reverse ::
      linesFrom false ds [] := fun begun ds => linesFrom_break (by decide) fun h => absurd h (by decide)
  induction cs, begun using linesFrom.induct with
  | case1 => rw [List.nil_append, List.nil_append, hfeed, hfeed, linesFrom]; rfl
  | case2 begun _ => rw [List.nil_append, List.nil_append, hfeed, hfeed, linesFrom]; rfl
  | case3 rest begun ih =>
    simp only [List.cons_append]
    rw [linesFrom_pair, linesFrom_pair, ih, List.cons_append]
  | case4 c rest begun hpair hbreak ih =>
    by_cases hlast : c = '\r' ∧ rest = []
    · obtain ⟨rfl, rfl⟩ := hlast
      -- the carriage return and the line feed behind it are one end of line
      change linesFrom false ('\r' :: '\n' :: ds) begun = linesFrom false ['\r', '\n'] begun ++ _
      rw [linesFrom_pair, linesFrom_pair, linesFrom]
      rfl
    · have hnext : ∀ ds, c = '\r' → ∀ rest', rest ++ '\n' :: ds ≠ '\n' :: rest' := by
        intro ds hreturn rest' hsame
        cases rest with
        | nil => exact hlast ⟨hreturn, rfl⟩
        | cons y rest =>
          obtain ⟨rfl, -⟩ := List.cons.inj hsame
          exact hpair rest hreturn rfl
      simp only [List.cons_append]
      rw [linesFrom_break hbreak (hnext ds), linesFrom_break hbreak (hnext []), ih, List.cons_append]
  | case5 c rest begun hpair hbreak ih =>
    have hbreak := Bool.not_eq_true _ ▸ hbreak
    simp only [List.cons_append]
    rw [linesFrom_plain hbreak, linesFrom_plain hbreak, ih]

/-- A text of whole lines: nothing stands behind its last line feed. -/
def Whole (s : String) : Prop := s = "" ∨ ∃ t, s = t ++ "\n"

theorem lines_append (ha : Whole a) (b : String) : lines (a ++ b) = lines a ++ lines b := by
  unfold lines
  rcases ha with rfl | ⟨t, rfl⟩
  · rw [String.empty_append]
    rfl
  · rw [String.toList_append, String.toList_append, List.append_assoc]
    exact linesFrom_append t.toList b.toList []

theorem linesFrom_line (hcs : ∀ c ∈ cs, isLineBreak c = false) (begun : List Char) :
    linesFrom false (cs ++ ['\n']) begun = [String.ofList (begun.reverse ++ cs)] := by
  induction cs generalizing begun with
  | nil =>
    rw [List.nil_append, linesFrom_break (by decide) fun h => absurd h (by decide), List.append_nil, linesFrom]
  | cons c cs ih =>
    obtain ⟨hc, hcs⟩ := List.forall_mem_cons.mp hcs
    rw [List.cons_append, linesFrom_plain hc, ih hcs, List.reverse_cons, List.append_assoc]
    rfl

theorem lines_line (hs : ∀ c ∈ s.toList, isLineBreak c = false) : lines (s ++ "\n") = [s] := by
  unfold lines
  rw [String.toList_append]
  refine (linesFrom_line hs []).trans ?_
  rw [List.reverse_nil, List.nil_append, String.ofList_toList]

theorem Whole.append (ha : Whole a) (hb : Whole b) : Whole (a ++ b) := by
  rcases hb with rfl | ⟨t, rfl⟩
  · rwa [String.append_empty]
  · exact .inr ⟨a ++ t, (String.append_assoc ..).symm⟩

theorem trim_indented (hindent : ∀ c ∈ indent.toList, isBlank c = true) : trim (indent ++ s) = trim s := by
  unfold trim trimBy
  rw [String.toList_append, List.dropWhile_append_of_pos hindent]

theorem trimBy_concat {α : Type} {test : α → Bool} {x : α} (hx : test x = true) (xs : List α) :
    trimBy test (xs ++ [x]) = trimBy test xs := by
  unfold trimBy
  rw [List.dropWhile_append]
  cases hrest : xs.dropWhile test with
  | nil => simp [hx]
  | cons y ys =>
    rw [List.isEmpty_cons, if_neg Bool.false_ne_true, List.reverse_append, List.reverse_singleton,
      List.singleton_append, List.dropWhile_cons_of_pos hx]

theorem trim_line (hindent : ∀ c ∈ indent.toList, isBlank c = true) : trim (indent ++ s ++ "\n") = trim s := by
  rw [String.append_assoc, trim_indented hindent]
  unfold trim
  rw [String.toList_append]
  exact congrArg String.ofList (trimBy_concat (by decide) _)

end Blank

/-! ## Whole lines that are put into a text -/

open Insertion (bytesAt bytesOf bytesBefore)
open Blank (Whole)

/-- Bytes of whole lines, and these lines without the blanks around them. -/
def HasLines (bytes : List UInt8) (lines : List String) : Prop :=
  ∃ s : String, s.toUTF8.data.toList = bytes ∧ Whole s ∧ (Blank.lines s).map Blank.trim = lines

/-- What is put there, without the blanks around it. -/
def Insertion.comment (i : Insertion) : String := Blank.trim i.2

/-- A comment on a line of its own. -/
def Insertion.Writes (i : Insertion) : Prop :=
  Guidance.OneLine i.comment ∧
    ∃ indent, i.2 = indent ++ i.comment ++ "\n" ∧ ∀ c ∈ indent.toList, c = ' ' ∨ c = '\t'

/-- A line begins at the offset. -/
def BeginsAt (bytes : ByteArray) (offset : Nat) : Prop := offset = 0 ∨ bytes.get! (offset - 1) = 10

section Reading

variable {source : ByteArray} {text : String} {i : Insertion} {is : List Insertion} {a b : List UInt8}
  {ls ls' : List String} {offset : Nat}

theorem HasLines.nil : HasLines [] [] := ⟨"", rfl, .inl rfl, rfl⟩

theorem HasLines.append (ha : HasLines a ls) (hb : HasLines b ls') : HasLines (a ++ b) (ls ++ ls') := by
  obtain ⟨s, rfl, hs, rfl⟩ := ha
  obtain ⟨t, rfl, ht, rfl⟩ := hb
  refine ⟨s ++ t, ?_, hs.append ht, ?_⟩
  · rw [String.toUTF8, String.toByteArray_append, ByteArray.data_append, Array.toList_append]
    rfl
  · rw [Blank.lines_append hs, List.map_append]

theorem hasLines_of_writes (h : i.Writes) : HasLines i.2.toUTF8.data.toList [i.comment] := by
  obtain ⟨hone, indent, htext, hindent⟩ := h
  have hplain : ∀ c ∈ (indent ++ i.comment).toList, isLineBreak c = false := by
    rw [String.toList_append]
    refine List.forall_mem_append.mpr ⟨fun c hc => ?_, hone.unbroken⟩
    rcases hindent c hc with rfl | rfl <;> decide
  have hblank : ∀ c ∈ indent.toList, isBlank c = true := by
    intro c hc
    rcases hindent c hc with rfl | rfl <;> decide
  refine ⟨i.2, rfl, .inr ⟨_, htext⟩, ?_⟩
  rw [htext, Blank.lines_line hplain, List.map_singleton, Blank.trim_indented hblank, hone.trimmed]

theorem hasLines_bytesAt (his : ∀ i ∈ is, i.Writes) (offset : Nat) :
    HasLines (bytesAt is offset) ((is.filter (·.1 == offset)).map Insertion.comment) := by
  unfold bytesAt
  induction is with
  | nil => exact .nil
  | cons i is ih =>
    obtain ⟨hi, his⟩ := List.forall_mem_cons.mp his
    rw [List.filter_cons]
    split
    · exact (hasLines_of_writes hi).append (ih his)
    · exact ih his

/-- A line feed is a character of its own. -/
theorem cuts_of_feed (hpos : 0 < offset) (hle : offset ≤ text.toUTF8.size)
    (hfeed : text.toUTF8.get! (offset - 1) = 10) :
    Script.Cut text (offset - 1) ∧ Script.Cut text offset ∧
      text.toUTF8.extract (offset - 1) offset = "\n".toUTF8 := by
  have hpiece := @Script.piece_one text.toUTF8 (offset - 1) (by omega) (by rw [hfeed]; decide)
  rw [Nat.sub_add_cancel hpos, hfeed] at hpiece
  have hcuts := (String.Pos.Raw.isValidUTF8_extract_iff (s := text) ⟨offset - 1⟩ ⟨offset⟩ (Nat.sub_le _ _) hle).mp
    ⟨_, hpiece⟩
  obtain ⟨hbefore, hbehind⟩ := hcuts.resolve_left fun hsame => by
    have := congrArg String.Pos.Raw.byteIdx hsame
    dsimp only at this
    omega
  exact ⟨hbefore, hbehind, hpiece⟩

theorem cut_of_beginsAt (h : BeginsAt text.toUTF8 offset) (hle : offset ≤ text.toUTF8.size) :
    Script.Cut text offset := by
  rcases Nat.eq_zero_or_pos offset with rfl | hpos
  · exact Script.cut_zero text
  · exact (cuts_of_feed hpos hle (h.resolve_left hpos.ne')).2.1

/-- What is put in front of lines leaves a text. -/
theorem made_isText (his : ∀ i ∈ is, BeginsAt text.toUTF8 i.1 ∧ i.1 ≤ text.toUTF8.size) :
    (Insertion.made text.toUTF8 is).IsValidUTF8 := by
  refine Edit.splice_isText (Script.cut_zero text) fun e he => ?_
  obtain ⟨r, hr, hstart, hstop, hput⟩ := Edit.mem_numbered he
  obtain ⟨i, hi, rfl⟩ := List.mem_map.mp hr
  obtain ⟨hbegins, hle⟩ := his i ((Insertion.perm_inOrder is).subset hi)
  have hcut : Script.Cut text i.1 := cut_of_beginsAt hbegins hle
  refine ⟨hstart.symm ▸ hcut, hstop.symm ▸ hcut, ?_⟩
  rw [hput]
  exact i.2.isValidUTF8

/-- A stretch of the text between two beginnings of lines is one of whole lines. -/
theorem hasLines_extract {first last : Nat} (hfirst : BeginsAt text.toUTF8 first)
    (hlast : BeginsAt text.toUTF8 last) (hlt : first < last) (hle : last ≤ text.toUTF8.size) :
    ∃ ls, HasLines (text.toUTF8.extract first last).data.toList ls := by
  obtain ⟨hbefore, -, hfeed⟩ := cuts_of_feed (by omega) hle (hlast.resolve_left (by omega))
  have hpiece := (cut_of_beginsAt hfirst (by omega)).piece hbefore
  have hsplit := ByteArray.extract_eq_extract_append_extract (a := text.toUTF8) (last - 1)
    (show first ≤ last - 1 by omega) (Nat.sub_le last 1)
  refine ⟨_, String.ofByteArray _ hpiece ++ "\n", ?_, .inr ⟨_, rfl⟩, rfl⟩
  rw [hsplit, hfeed, String.toUTF8, String.toByteArray_append]
  rfl

/-- Between the beginning of a line and an offset on it no line begins. -/
theorem BeginsLine.outside {first : Nat} (his : ∀ i ∈ is, BeginsAt source i.1)
    (hline : BeginsLine source offset first) : ∀ i ∈ is, i.1 ≤ first ∨ offset < i.1 := by
  intro i hi
  by_contra hbetween
  rcases his i hi with hzero | hfeed
  · omega
  · exact hline.clear (i.1 - 1) (by omega) (by omega) hfeed

/-- Of the text in front of a line, and of what comes of it, the lines are the same but for the comments. -/
theorem hasLines_before (his : ∀ i ∈ is, i.Writes ∧ BeginsAt text.toUTF8 i.1)
    (hbegins : BeginsAt text.toUTF8 offset) (hle : offset ≤ text.toUTF8.size) :
    ∃ ls ls', HasLines (text.toUTF8.extract 0 offset).data.toList ls ∧
      HasLines (bytesBefore text.toUTF8 is offset) ls' ∧ Interspersed (·.startsWith "//") ls ls' := by
  induction offset using Nat.strongRecOn with
  | _ offset ih =>
    rcases Nat.eq_zero_or_pos offset with rfl | hpos
    · refine ⟨[], [], ?_, .nil, .nil⟩
      rw [ByteArray.extract_eq_empty_iff.mpr (by omega)]
      exact .nil
    · -- the line that ends in front of the offset, and what is in front of that line
      have hline := beginsLine_lineStart text.toUTF8 (offset - 1)
      generalize Script.lineStart text.toUTF8 (offset - 1) = first at hline
      have hfirst := hline.le
      obtain ⟨ls, ls', hold, hnew, hls⟩ := ih first (by omega) hline.begins (by omega)
      obtain ⟨line, hread⟩ := hasLines_extract hline.begins hbegins (by omega) hle
      have hclear : Insertion.Clear is first offset := fun i hi =>
        (hline.outside (fun i hi => (his i hi).2) i hi).imp_right Nat.le_of_pred_lt
      have hcomments : ∀ comment ∈ (is.filter (·.1 == first)).map Insertion.comment,
          comment.startsWith "//" = true := by
        intro comment hcomment
        obtain ⟨i, hi, rfl⟩ := List.mem_map.mp hcomment
        exact Guidance.OneLine.startsWith (his i (List.mem_of_mem_filter hi)).1.1
      refine ⟨ls ++ line, ls' ++ (is.filter (·.1 == first)).map Insertion.comment ++ line, ?_, ?_, ?_⟩
      · rw [ByteArray.extract_eq_extract_append_extract first (by omega) (by omega), ByteArray.data_append,
          Array.toList_append]
        exact hold.append hread
      · rw [Insertion.bytesBefore_of_clear hclear (by omega) hle]
        exact (hnew.append (hasLines_bytesAt (fun i hi => (his i hi).1) first)).append hread
      · rw [← List.append_nil ls]
        exact (hls.append (.of_all hcomments)).append (.refl line)

/-- Behind whole lines a line begins. -/
theorem HasLines.last (h : HasLines a ls) : a = [] ∨ ∃ front, a = front ++ [10] := by
  obtain ⟨s, rfl, hs, -⟩ := h
  rcases hs with rfl | ⟨t, rfl⟩
  · exact .inl rfl
  · refine .inr ⟨t.toUTF8.data.toList, ?_⟩
    rw [String.toUTF8, String.toByteArray_append, ByteArray.data_append, Array.toList_append]
    rfl

theorem BeginsLine.unique {bytes : ByteArray} {p s t : Nat} (hs : BeginsLine bytes p s)
    (ht : BeginsLine bytes p t) : s = t :=
  Nat.le_antisymm (hs.le_iff.mpr (ht.le_iff.mp (Nat.le_refl _))) (ht.le_iff.mpr (hs.le_iff.mp (Nat.le_refl _)))

theorem BeginsLine.unbroken {bytes : ByteArray} {p s : Nat} (h : BeginsLine bytes p s) :
    ∀ b ∈ (bytes.extract s p).data.toList, b ≠ 10 := by
  intro b hb
  have hclear := (Document.all_extract bytes s p (· != 10)).mpr
    fun j hfirst hlast _ => bne_iff_ne.mpr (h.clear j hfirst hlast)
  rw [show (bytes.extract s p).toList = (bytes.extract s p).data.toList from toList_loop _ 0 []] at hclear
  exact bne_iff_ne.mp (List.all_eq_true.mp hclear b hb)

/-- Bytes in front of an offset, where a line of them ends. -/
theorem beginsLine_of_extract {bytes : ByteArray} {front line : List UInt8} {last : Nat} (hlast : last ≤ bytes.size)
    (hbytes : (bytes.extract 0 last).data.toList = front ++ line) (hfront : HasLines front ls)
    (hline : ∀ b ∈ line, b ≠ 10) : BeginsLine bytes last front.length := by
  have hlength : (front ++ line).length = last := by
    rw [← hbytes, Edit.toList_extract, List.length_take, List.drop_zero]
    change min _ bytes.size = last
    omega
  have hget : ∀ j (hj : j < (front ++ line).length), bytes.get! j = (front ++ line)[j] := by
    intro j hj
    have hsize : j < bytes.data.toList.length := by
      change j < bytes.size
      omega
    change bytes.data[j]! = _
    rw [getElem!_pos bytes.data j hsize, ← Array.getElem_toList]
    simp only [← hbytes, Edit.toList_extract, List.drop_zero, List.getElem_take]
  rw [List.length_append] at hlength
  refine ⟨by omega, fun j hfirst hj => ?_, ?_⟩
  · rw [hget j (by rw [List.length_append]; omega), List.getElem_append_right hfirst]
    exact hline _ (List.getElem_mem _)
  · rcases hfront.last with rfl | ⟨rest, rfl⟩
    · exact .inl rfl
    · refine .inr ?_
      rw [List.length_append, List.length_singleton, Nat.add_sub_cancel,
        hget rest.length (by rw [List.length_append, List.length_append, List.length_singleton]; omega)]
      simp

end Reading

/-! ## The block above a line -/

namespace Document

variable {d d' : Document} {text : String} {is : List Insertion} {ls : List String} {offset : Nat}

theorem linesBefore_of_hasLines (h : HasLines (d.source.extract 0 (d.lineStart offset)).data.toList ls) :
    d.linesBefore offset = .ok ls.reverse := by
  obtain ⟨s, hs, -, rfl⟩ := h
  have hslice : d.slice 0 (d.lineStart offset) = .ok s := by
    refine Conversion.decode_ok.mpr ?_
    rw [ByteArray.ext_iff, ← Array.toList_inj, hs]
  unfold linesBefore
  rw [hslice, ← List.map_reverse]
  rfl

theorem commentsAbove_of_hasLines (h : HasLines (d.source.extract 0 (d.lineStart offset)).data.toList ls) :
    Suggestion.commentsAbove d offset = .ok (ls.reverse.takeWhile (·.startsWith "//")) := by
  unfold Suggestion.commentsAbove
  rw [linesBefore_of_hasLines h]
  rfl

section Made

variable (hmade : d'.source = Insertion.made d.source is)
  (his : ∀ i ∈ is, i.Writes ∧ BeginsAt d.source i.1 ∧ i.1 ≤ d.source.size) (hle : offset ≤ d.source.size)

include hmade his hle

/-- The line of what has moved begins where the old line has come to, behind the comments in front of it. -/
theorem lineStart_made (hnew : HasLines (bytesBefore d.source is (d.lineStart offset)) ls) :
    d'.lineStart (Insertion.movedStart is offset) = Insertion.movedStart is (d.lineStart offset) := by
  have hinside : ∀ i ∈ is, i.1 ≤ d.source.size := fun i hi => (his i hi).2.2
  have hline := beginsLine_of_le hle
  generalize d.lineStart offset = first at hline hnew
  have hsize := Insertion.movedStart_le_size hinside hle
  rw [← hmade] at hsize
  have hbytes : (d'.source.extract 0 (Insertion.movedStart is offset)).data.toList =
      (bytesBefore d.source is first ++ bytesAt is first) ++ (d.source.extract first offset).data.toList := by
    rw [hmade, Insertion.extract_made_zero hinside hle,
      Insertion.bytesBefore_at_of_clear (hline.outside fun i hi => (his i hi).2.1) hline.le hle]
  have hline' := beginsLine_of_extract hsize hbytes
    (hnew.append (hasLines_bytesAt (fun i hi => (his i hi).1) first)) hline.unbroken
  rw [Insertion.length_bytesBefore_at is (hline.le.trans hle)] at hline'
  exact (beginsLine_of_le hsize).unique hline'

/-- Where whole lines of comments are put into a text, the block above a line keeps its comments, and those
that are put right above the line belong to it. -/
theorem commentsAbove_made (htext : d.source = text.toUTF8) :
    ∃ above above', Suggestion.commentsAbove d offset = .ok above ∧
      Suggestion.commentsAbove d' (Insertion.movedStart is offset) = .ok above' ∧
      (∀ line ∈ above, line ∈ above') ∧ ∀ i ∈ is, i.1 = d.lineStart offset → i.comment ∈ above' := by
  have hwrites : ∀ i ∈ is, i.Writes := fun i hi => (his i hi).1
  have hline := beginsLine_of_le hle
  obtain ⟨ls, ls', hold, hnew, hls⟩ := @hasLines_before text is (d.lineStart offset)
    (fun i hi => ⟨hwrites i hi, htext ▸ (his i hi).2.1⟩) (htext ▸ hline.begins) (htext ▸ hline.le.trans hle)
  rw [← htext] at hold hnew
  have hmoved : HasLines (d'.source.extract 0 (d'.lineStart (Insertion.movedStart is offset))).data.toList
      (ls' ++ (is.filter (·.1 == d.lineStart offset)).map Insertion.comment) := by
    rw [lineStart_made hmade his hle hnew, hmade,
      Insertion.extract_made_zero (fun i hi => (his i hi).2.2) (hline.le.trans hle)]
    exact hnew.append (hasLines_bytesAt hwrites _)
  refine ⟨_, _, commentsAbove_of_hasLines hold, commentsAbove_of_hasLines hmoved, ?_⟩
  have hput : ∀ comment ∈ ((is.filter (·.1 == d.lineStart offset)).map Insertion.comment).reverse,
      comment.startsWith "//" = true := by
    intro comment hcomment
    obtain ⟨i, hi, rfl⟩ := List.mem_map.mp (List.mem_reverse.mp hcomment)
    exact (hwrites i (List.mem_of_mem_filter hi)).1.startsWith
  rw [List.reverse_append, List.takeWhile_append_of_pos hput]
  refine ⟨fun line hmem => List.mem_append_right _ (hls.reverse.mem_takeWhile hmem), fun i hi hsame => ?_⟩
  refine List.mem_append_left _ (List.mem_reverse.mpr (List.mem_map_of_mem ?_))
  exact List.mem_filter.mpr ⟨hi, beq_iff_eq.mpr hsame⟩

end Made

end Document

end TestMigration
