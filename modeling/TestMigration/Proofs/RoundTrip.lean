import TestMigration.Proofs.Decoding
import TestMigration.Proofs.Cuts

/-! Literals that are put into a script. What is written for a text between double quotes is one literal of the
language: its pieces stand for the text, no end of line is bare in it, and the reader of a script takes it as
one token wherever it stands. With the quote of another literal this holds of the texts without ends of line. -/

namespace TestMigration

namespace Script

/-! ## Characters in the bytes of a script -/

namespace Input

/-- The characters stand in the text from the offset on. -/
def Spells (i : Input) (p : Nat) (cs : List Char) : Prop :=
  ∃ rest : ByteArray, i.bytes.extract p i.bytes.size = cs.utf8Encode ++ rest

variable {i : Input} {p : Nat} {c d : Char} {cs ds : List Char}

theorem size_single (c : Char) : [c].utf8Encode.size = c.utf8Size := by
  rw [List.utf8Encode_singleton, List.size_toByteArray, String.length_utf8EncodeChar]

theorem size_cons (c : Char) (cs : List Char) :
    (c :: cs).utf8Encode.size = c.utf8Size + cs.utf8Encode.size := by
  rw [List.utf8Encode_cons, ByteArray.size_append, size_single]

theorem length_le_size (cs : List Char) : cs.length ≤ cs.utf8Encode.size := by
  induction cs with
  | nil => exact Nat.le_refl 0
  | cons c cs ih =>
    have hpos := c.utf8Size_pos
    rw [size_cons, List.length_cons]
    omega

theorem length_le_flatMap {write : Char → List Char} (h : ∀ c ∈ cs, write c ≠ []) :
    cs.length ≤ (cs.flatMap write).length := by
  induction cs with
  | nil => exact Nat.le_refl 0
  | cons c cs ih =>
    obtain ⟨hc, hcs⟩ := List.forall_mem_cons.mp h
    have hpos := List.length_pos_iff_ne_nil.mpr hc
    have hrest := ih hcs
    rw [List.flatMap_cons, List.length_append, List.length_cons]
    omega

theorem Spells.le_size (h : i.Spells p cs) : cs.utf8Encode.size ≤ i.bytes.size - p := by
  obtain ⟨rest, h⟩ := h
  have hsize := congrArg ByteArray.size h
  rw [ByteArray.size_extract, ByteArray.size_append] at hsize
  omega

theorem Spells.of_append (h : i.Spells p (cs ++ ds)) :
    i.Spells p cs ∧ i.Spells (p + cs.utf8Encode.size) ds := by
  obtain ⟨rest, h⟩ := h
  rw [List.utf8Encode_append, ByteArray.append_assoc] at h
  refine ⟨⟨_, h⟩, rest, ?_⟩
  have hsize := congrArg ByteArray.size h
  rw [ByteArray.size_extract, ByteArray.size_append] at hsize
  have hlater : i.bytes.extract (p + cs.utf8Encode.size) i.bytes.size =
      (i.bytes.extract p i.bytes.size).extract cs.utf8Encode.size (i.bytes.size - p) := by
    rw [ByteArray.extract_extract]
    congr 1
    omega
  rw [hlater, h, ByteArray.extract_append_eq_right rfl (by omega)]

theorem Spells.tail (h : i.Spells p (c :: cs)) : i.Spells (p + c.utf8Size) cs := by
  rw [← List.singleton_append] at h
  rw [← size_single]
  exact h.of_append.2

theorem Spells.char? (h : i.Spells p (c :: cs)) : i.char? p = some (c, c.utf8Size) := by
  have hlt : p < i.bytes.size := by
    have hsize := h.le_size
    rw [size_cons] at hsize
    have hpos := c.utf8Size_pos
    omega
  obtain ⟨rest, h⟩ := h
  rw [List.utf8Encode_cons, ByteArray.append_assoc] at h
  have hdecode : i.bytes.utf8DecodeChar? p = some c := by
    rw [ByteArray.utf8DecodeChar?_eq_utf8DecodeChar?_extract, h, List.utf8DecodeChar?_utf8Encode_singleton_append]
  unfold Input.char?
  rw [if_pos hlt]
  dsimp only
  split
  · rename_i hb
    have hfirst : i.bytes.utf8DecodeChar? p = some (Char.ofNat (i.bytes.get! p).toNat) := by
      rw [ByteArray.utf8DecodeChar?_eq_utf8DecodeChar?_extract,
        ByteArray.extract_eq_extract_append_extract (p + 1) (by omega) hlt, piece_one hlt hb,
        List.utf8DecodeChar?_utf8Encode_singleton_append]
    cases hfirst.symm.trans hdecode
    rw [show (Char.ofNat (i.bytes.get! p).toNat).utf8Size = 1 from narrow_ofNat hb]
  · rw [hdecode]

theorem Spells.is (h : i.Spells p (c :: cs)) (d : Char) : i.is p d = (c == d) := by
  unfold Input.is
  rw [h.char?]

/-- A run of characters that pass the test is skipped. -/
theorem Spells.le_skipWhile {test : Char → Bool} (h : i.Spells p cs) (hcs : ∀ c ∈ cs, test c = true)
    {fuel : Nat} (hfuel : cs.length ≤ fuel) : p + cs.utf8Encode.size ≤ i.skipWhile test fuel p := by
  induction cs generalizing p fuel with
  | nil =>
    have hgrows : ∀ fuel p, p ≤ i.skipWhile test fuel p := by
      intro fuel
      induction fuel with
      | zero => exact fun p => Nat.le_refl p
      | succ fuel ih =>
        intro p
        unfold skipWhile
        split
        · split
          · exact (Nat.le_add_right p _).trans (ih _)
          · exact Nat.le_refl p
        · exact Nat.le_refl p
    exact hgrows fuel p
  | cons c cs ih =>
    obtain ⟨hc, hcs⟩ := List.forall_mem_cons.mp hcs
    obtain ⟨fuel, rfl⟩ : ∃ n, fuel = n + 1 := ⟨fuel - 1, by rw [List.length_cons] at hfuel; omega⟩
    have hrest := ih h.tail hcs (Nat.le_of_succ_le_succ hfuel)
    unfold skipWhile
    rw [h.char?]
    dsimp only
    rw [if_pos hc, size_cons, ← Nat.add_assoc]
    exact hrest

/-! ## Steps of the reader -/

/-- A reader of a literal takes the characters in one step. -/
def Passes (quote : Char) (written : List Char) : Prop :=
  ∀ (i : Input) (p : Nat), i.Spells p written → ∀ begun parts, ∃ begun' parts', ∀ fuel,
    i.quotedParts? quote (fuel + 1) begun p parts =
      i.quotedParts? quote fuel begun' (p + written.utf8Encode.size) parts'

variable {quote : Char}

theorem passes_plain (hquote : c ≠ quote) (hc : c ≠ '\\' ∧ c ≠ '\n' ∧ c ≠ '\r') : Passes quote [c] := by
  intro i p h begun parts
  refine ⟨begun, parts, fun fuel => ?_⟩
  rw [quotedParts?, h.char?]
  dsimp only
  rw [if_neg (by simpa using hquote), if_neg (by simpa using hc.1), if_neg (by simpa using hc.2), size_single]

theorem passes_escape {written : List Char} (hquote : '\\' ≠ quote)
    (h : ∀ (i : Input) (p : Nat), i.Spells p ('\\' :: written) →
      i.escapeStop? p = some (p + ('\\' :: written).utf8Encode.size)) : Passes quote ('\\' :: written) := by
  intro i p hspells begun parts
  refine ⟨p + ('\\' :: written).utf8Encode.size,
    .mk none .escapeSequence p (p + ('\\' :: written).utf8Encode.size) [] :: fragment begun p parts,
    fun fuel => ?_⟩
  rw [quotedParts?, hspells.char?]
  dsimp only
  rw [if_neg (by simpa using hquote), if_pos (by decide), h i p hspells]

/-- An escape ends with the character behind its backslash. -/
def Short (c : Char) : Prop := c ≠ 'x' ∧ c ≠ 'u' ∧ c ≠ '\r' ∧ c ≠ '?' ∧ ¬ ('0' ≤ c ∧ c ≤ '7')

instance (c : Char) : Decidable (Short c) :=
  inferInstanceAs (Decidable (c ≠ 'x' ∧ c ≠ 'u' ∧ c ≠ '\r' ∧ c ≠ '?' ∧ ¬ ('0' ≤ c ∧ c ≤ '7')))

theorem passes_simple (hquote : '\\' ≠ quote) (hc : Short c) : Passes quote ['\\', c] := by
  obtain ⟨hx, hu, hreturn, hmark, hoctal⟩ := hc
  refine passes_escape hquote fun i p h => ?_
  have hsecond : i.char? (p + 1) = some (c, c.utf8Size) := (show i.Spells (p + 1) [c] from h.tail).char?
  have hwidth : ['\\', c].utf8Encode.size = 1 + c.utf8Size := by
    rw [size_cons, size_single]
    rfl
  unfold escapeStop?
  rw [hsecond, hwidth]
  dsimp only
  rw [if_neg (by simpa using hx), if_neg (by simpa using hu),
    if_neg (by rw [hsecond]; simpa using hoctal), if_neg (by simp [hreturn, hmark]), Nat.add_assoc]

/-- The escape of a code unit by four digits. -/
theorem passes_unit (hquote : '\\' ≠ quote) {digits : List Char} (hlength : digits.length = 4)
    (hdigits : ∀ c ∈ digits, isHexDigit c = true) : Passes quote ('\\' :: 'u' :: digits) := by
  refine passes_escape hquote fun i p h => ?_
  have hsecond : i.Spells (p + 1) ('u' :: digits) := h.tail
  have hthird : i.Spells (p + 2) digits := hsecond.tail
  have hnarrow : ∀ ds : List Char, (∀ c ∈ ds, isHexDigit c = true) → ds.utf8Encode.size = ds.length := by
    intro ds
    induction ds with
    | nil => exact fun _ => rfl
    | cons d ds ih =>
      intro hds
      obtain ⟨hd, hds⟩ := List.forall_mem_cons.mp hds
      rw [size_cons, ih hds, List.length_cons,
        show d.utf8Size = 1 from narrow_of_isHexDigit d hd, Nat.add_comm]
  have hwidth : ('\\' :: 'u' :: digits).utf8Encode.size = 6 := by
    rw [size_cons, size_cons, hnarrow digits hdigits, hlength]
    rfl
  have hfour : digits.utf8Encode.size = 4 := (hnarrow digits hdigits).trans hlength
  have hbrace : i.is (p + 2) '\x7b' = false := by
    cases digits with
    | nil => cases hlength
    | cons d ds =>
      rw [hthird.is]
      refine beq_eq_false_iff_ne.mpr ?_
      rintro rfl
      exact absurd (hdigits _ List.mem_cons_self) (by decide)
  have hrun : p + 2 + 4 ≤ i.skip isHexDigit (p + 2) := by
    have hsize := hthird.le_size
    rw [← hfour]
    exact hthird.le_skipWhile hdigits (by omega)
  unfold escapeStop?
  rw [hsecond.char?, hwidth]
  dsimp only
  rw [if_neg (by decide), if_pos (by decide), hbrace, if_neg Bool.false_ne_true, if_pos (by simpa using hrun)]

/-- The reader of a literal goes on to the closing quote. Each character costs one unit of fuel, however long
it is written. -/
theorem quotedParts?_flatMap {write : Char → List Char} (hcs : ∀ c ∈ cs, Passes quote (write c))
    (hquote : Narrow quote) (h : i.Spells p (cs.flatMap write ++ [quote])) {fuel : Nat}
    (hfuel : cs.length < fuel) (begun : Nat) (parts : List Node) : ∃ parts',
      i.quotedParts? quote fuel begun p parts =
        some (parts', p + (cs.flatMap write ++ [quote]).utf8Encode.size) := by
  induction cs generalizing p fuel begun parts with
  | nil =>
    obtain ⟨fuel, rfl⟩ : ∃ n, fuel = n + 1 := ⟨fuel - 1, by omega⟩
    have hone : ([].flatMap write ++ [quote]).utf8Encode.size = 1 := (size_single quote).trans hquote
    rw [quotedParts?, hone, h.char?]
    dsimp only
    rw [if_pos (beq_self_eq_true quote)]
    exact ⟨_, rfl⟩
  | cons c cs ih =>
    obtain ⟨hc, hcs⟩ := List.forall_mem_cons.mp hcs
    obtain ⟨fuel, rfl⟩ : ∃ n, fuel = n + 1 := ⟨fuel - 1, by omega⟩
    rw [List.flatMap_cons, List.append_assoc] at h ⊢
    obtain ⟨hfirst, hrest⟩ := h.of_append
    obtain ⟨begun', parts', hstep⟩ := hc i p hfirst begun parts
    rw [hstep, List.utf8Encode_append, ByteArray.size_append, ← Nat.add_assoc]
    exact ih hcs hrest (Nat.lt_of_succ_lt_succ hfuel) begun' parts'

/-- No blank and no comment begins with a quote. -/
theorem passTrivia_of_is (h : i.Spells p (quote :: cs)) (hquote : quote = '\'' ∨ quote = '"') (fuel : Nat)
    (comments : List Node) : i.passTrivia fuel p comments = (p, comments) := by
  cases fuel with
  | zero => rfl
  | succ fuel =>
    rw [passTrivia, h.char?]
    dsimp only
    rcases hquote with rfl | rfl
    · rw [if_neg (by decide), if_neg (by decide)]
    · rw [if_neg (by decide), if_neg (by decide)]

end Input

theorem Reader.bind_of_ok {α β : Type} {r : Reader α} {f : α → Reader β} {i : Input} {c c' : Cursor} {a : α}
    (h : r i c = .ok a c') : (r >>= f) i c = f a i c' := by
  change Reader.bind r f i c = _
  unfold Reader.bind
  rw [h]

open Reader in
/-- What stands between quotes is read as one literal. -/
theorem stringLiteral_of_spells {i : Input} {c : Cursor} {quote : Char} {cs : List Char}
    {write : Char → List Char} (hquote : quote = '\'' ∨ quote = '"')
    (hcs : ∀ c ∈ cs, Input.Passes quote (write c)) (hne : ∀ c ∈ cs, write c ≠ [])
    (h : i.Spells c.pos (quote :: cs.flatMap write ++ [quote])) : ∃ parts, ∃ after : Cursor,
      after.pos = c.pos + (quote :: cs.flatMap write ++ [quote]).utf8Encode.size ∧
        stringLiteral i c = .ok (.mk none .string c.pos after.pos parts) after := by
  have hone : Narrow quote := by
    rcases hquote with rfl | rfl
    · decide
    · decide
  obtain ⟨stop, hstop⟩ : ∃ stop, stop = c.pos + 1 + (cs.flatMap write ++ [quote]).utf8Encode.size :=
    ⟨_, rfl⟩
  have hsize : (quote :: cs.flatMap write ++ [quote]).utf8Encode.size =
      1 + (cs.flatMap write ++ [quote]).utf8Encode.size := by
    rw [List.cons_append, Input.size_cons, show quote.utf8Size = 1 from hone]
  have htail : i.Spells (c.pos + 1) (cs.flatMap write ++ [quote]) := by
    rw [← show quote.utf8Size = 1 from hone]
    exact h.tail
  have hfuel : cs.length < i.bytes.size + 1 - c.pos := by
    have hin := h.le_size
    have hbytes := Input.length_le_size (cs.flatMap write ++ [quote])
    have hchars := Input.length_le_flatMap hne
    rw [List.length_append] at hbytes
    omega
  obtain ⟨parts, hparts⟩ := Input.quotedParts?_flatMap hcs hone htail hfuel (c.pos + 1) []
  rw [← hstop] at hparts
  have hskip : skipTrivia i c = .ok c.pos c := by
    unfold skipTrivia
    rw [Input.passTrivia_of_is h hquote]
  have hfirst : (if i.is c.pos '\'' then '\'' else '"') = quote := by
    rw [h.is]
    rcases hquote with rfl | rfl
    · rfl
    · rfl
  have hguard : Reader.guard (i.is c.pos quote) i c = .ok () c := by
    rw [h.is, beq_self_eq_true]
    rfl
  refine ⟨parts, { c with pos := stop, last := stop }, ?_, ?_⟩
  · rw [hsize, ← Nat.add_assoc]
    exact hstop
  · unfold stringLiteral
    rw [bind_of_ok hskip, bind_of_ok (show input i c = .ok i c from rfl), hfirst]
    dsimp only
    rw [bind_of_ok hguard, hparts]
    rfl

end Script

namespace Quoted

open Script

/-! ## What a literal is -/

/-- The string is one literal between these quotes that stands for the value: the language reads its pieces
so, no end of line is in it, and it is read as one token wherever it stands in a script. -/
structure IsLiteralOf (quote : Char) (written value : String) : Prop where
  literal : ∃ l : Literal, l.quote = quote ∧ l.written = written ∧ l.text = Text.ofString value
  oneLine : ∀ c ∈ written.toList, c ≠ '\n' ∧ c ≠ '\r'
  token : ∀ (before after : String) (dialect : Dialect) (c : Cursor), c.pos = before.utf8ByteSize →
    ∃ parts, ∃ c' : Cursor, c'.pos = c.pos + written.utf8ByteSize ∧
      Reader.stringLiteral ⟨(before ++ written ++ after).toUTF8, dialect⟩ c =
        .ok (.mk none .string c.pos c'.pos parts) c'

/-! ## Pieces for characters -/

/-- What is written for a character is a piece that stands for it, and is taken in one step. -/
structure Writes (quote : Char) (written : List Char) (c : Char) : Prop where
  piece : ∃ p : Piece, p.written = written ∧ p.codePoint? = some c.toNat
  bare : written ≠ [quote]
  zero : written ≠ ['\\', '0']
  oneLine : ∀ d ∈ written, d ≠ '\n' ∧ d ≠ '\r'
  passes : Input.Passes quote written

variable {quote c : Char} {written : List Char} {write : Char → List Char} {cs : List Char}

theorem Writes.ne_nil (h : Writes quote written c) : written ≠ [] := by
  obtain ⟨p, rfl, -⟩ := h.piece
  cases p with
  | _ => exact List.cons_ne_nil _ _

/-- A character that is written as itself. -/
theorem writes_self (hquote : c ≠ quote) (hc : c ≠ '\\' ∧ c ≠ '\n' ∧ c ≠ '\r') :
    Writes quote [c] c where
  piece := ⟨.plain c hc, rfl, rfl⟩
  bare := fun h => hquote (List.singleton_inj.mp h)
  zero := fun h => by cases h
  oneLine := fun d hd => by
    obtain rfl := List.mem_singleton.mp hd
    exact hc.2
  passes := Input.passes_plain hquote hc

/-- A character that is written behind a backslash. -/
theorem writes_escaped {e : Char} (hquote : quote = '\'' ∨ quote = '"') (hc : isSimple c = true)
    (hzero : c ≠ '0') (he : escapedChar c = e) (hshort : Input.Short c) :
    Writes quote ['\\', c] e where
  piece := ⟨.escaped c hc, rfl, by rw [← he]; rfl⟩
  bare := fun h => by cases h
  zero := fun h => by
    cases h
    exact hzero rfl
  oneLine := by
    refine List.forall_mem_cons.mpr ⟨by decide, List.forall_mem_singleton.mpr ⟨?_, hshort.2.2.1⟩⟩
    rintro rfl
    cases hc
  passes := Input.passes_simple (by rcases hquote with rfl | rfl <;> decide) hshort

/-- A control character that is written by its code unit. -/
theorem writes_control (hquote : quote = '\'' ∨ quote = '"') (hc : c < ' ') :
    Writes quote ['\\', 'u', '0', '0', hexDigit (c.toNat / 16), hexDigit (c.toNat % 16)] c := by
  have hdigits : ∀ n : Fin 16, (HexDigit.mk n false).char = hexDigit n.val ∧
      isHexDigit (hexDigit n.val) = true ∧ hexDigit n.val ≠ '\n' ∧ hexDigit n.val ≠ '\r' := by decide
  have hlt : c.toNat < 32 := hc
  obtain ⟨hhigh, hhex, hhighLine⟩ := hdigits ⟨c.toNat / 16, by omega⟩
  obtain ⟨hlow, hlowHex, hlowLine⟩ := hdigits ⟨c.toNat % 16, by omega⟩
  dsimp only at hhigh hhex hhighLine hlow hlowHex hlowLine
  have hpiece : (Piece.unit ⟨0, false⟩ ⟨0, false⟩ ⟨⟨c.toNat / 16, by omega⟩, false⟩
      ⟨⟨c.toNat % 16, by omega⟩, false⟩).written =
        ['\\', 'u', '0', '0', hexDigit (c.toNat / 16), hexDigit (c.toNat % 16)] := by
    rw [← hhigh, ← hlow]
    rfl
  have hpoint : HexDigit.number [⟨0, false⟩, ⟨0, false⟩, ⟨⟨c.toNat / 16, by omega⟩, false⟩,
      ⟨⟨c.toNat % 16, by omega⟩, false⟩] = c.toNat := by
    change 16 * (16 * (16 * (16 * 0 + 0) + 0) + c.toNat / 16) + c.toNat % 16 = _
    omega
  refine ⟨⟨_, hpiece, congrArg some hpoint⟩, (fun h => by cases h), (fun h => by cases h), ?_, ?_⟩
  · refine List.forall_mem_cons.mpr ⟨by decide, List.forall_mem_cons.mpr ⟨by decide, List.forall_mem_cons.mpr
      ⟨by decide, List.forall_mem_cons.mpr ⟨by decide, ?_⟩⟩⟩⟩
    exact List.forall_mem_cons.mpr ⟨hhighLine, List.forall_mem_singleton.mpr hlowLine⟩
  · refine Input.passes_unit (by rcases hquote with rfl | rfl <;> decide) rfl ?_
    refine List.forall_mem_cons.mpr ⟨by decide, List.forall_mem_cons.mpr ⟨by decide, ?_⟩⟩
    exact List.forall_mem_cons.mpr ⟨hhex, List.forall_mem_singleton.mpr hlowHex⟩

theorem writes_escapeChar (c : Char) : Writes '"' (escapeChar c) c := by
  unfold escapeChar
  split
  · exact writes_escaped (.inr rfl) (by decide) (by decide) rfl (by decide)
  · exact writes_escaped (.inr rfl) (by decide) (by decide) rfl (by decide)
  · exact writes_escaped (.inr rfl) (by decide) (by decide) rfl (by decide)
  · exact writes_escaped (.inr rfl) (by decide) (by decide) rfl (by decide)
  · exact writes_escaped (.inr rfl) (by decide) (by decide) rfl (by decide)
  · exact writes_escaped (.inr rfl) (by decide) (by decide) rfl (by decide)
  · exact writes_escaped (.inr rfl) (by decide) (by decide) rfl (by decide)
  · split
    · rename_i h
      exact writes_control (.inr rfl) h
    · exact writes_self (by assumption) ⟨by assumption, by assumption, by assumption⟩

theorem writes_escapeFor (hquote : quote = '\'' ∨ quote = '"') (hc : c ≠ '\n' ∧ c ≠ '\r') :
    Writes quote (escapeFor quote c) c := by
  unfold escapeFor
  split
  · rename_i h
    have hc : c = '\\' ∨ c = '\'' ∨ c = '"' := by
      rcases Bool.or_eq_true_iff.mp h with h | h
      · exact .inl (beq_iff_eq.mp h)
      · rw [beq_iff_eq.mp h]
        exact .inr hquote
    rcases hc with rfl | rfl | rfl
    · exact writes_escaped hquote (by decide) (by decide) rfl (by decide)
    · exact writes_escaped hquote (by decide) (by decide) rfl (by decide)
    · exact writes_escaped hquote (by decide) (by decide) rfl (by decide)
  · rename_i h
    obtain ⟨hback, hbare⟩ : c ≠ '\\' ∧ c ≠ quote := by simpa using h
    exact writes_self hbare ⟨hback, hc⟩

/-! ## Whole literals -/

/-- The pieces for a run of characters. -/
theorem exists_pieces (h : ∀ c ∈ cs, Writes quote (write c) c) : ∃ ps : List Piece,
    ps.flatMap Piece.written = cs.flatMap write ∧ ps.filterMap Piece.codePoint? = cs.map Char.toNat ∧
      ∀ p ∈ ps, p.written ≠ [quote] ∧ p.written ≠ ['\\', '0'] ∧ p.codePoint?.isSome = true := by
  induction cs with
  | nil => exact ⟨[], rfl, rfl, fun _ hp => absurd hp List.not_mem_nil⟩
  | cons c cs ih =>
    obtain ⟨hc, hcs⟩ := List.forall_mem_cons.mp h
    obtain ⟨ps, hwritten, hpoints, hps⟩ := ih hcs
    obtain ⟨p, hp, hpoint⟩ := hc.piece
    refine ⟨p :: ps, ?_, ?_, List.forall_mem_cons.mpr ⟨⟨?_, ?_, ?_⟩, hps⟩⟩
    · rw [List.flatMap_cons, List.flatMap_cons, hp, hwritten]
    · rw [List.filterMap_cons_some hpoint, hpoints, List.map_cons]
    · rw [hp]
      exact hc.bare
    · rw [hp]
      exact hc.zero
    · rw [hpoint]
      rfl

/-- What is written for a string is a literal that the language takes for it. -/
theorem exists_literal (hquote : quote = '\'' ∨ quote = '"') (h : ∀ c ∈ cs, Writes quote (write c) c) :
    ∃ l : Literal, l.quote = quote ∧ l.written = String.ofList (quote :: cs.flatMap write ++ [quote]) ∧
      l.text = cs.map .char := by
  obtain ⟨ps, hwritten, hpoints, hps⟩ := exists_pieces h
  let l : Literal :=
    { quote := quote
      quoted := hquote
      pieces := ps
      bare := fun p hp => (hps p hp).1
      zeros := (List.pairwise_iff_forall_sublist.mpr fun hpair hzero =>
        absurd hzero (hps _ (hpair.subset List.mem_cons_self)).2.1).isChain }
  have hfeeds : l.FeedsOnly := fun b hb => by
    have hpoint := (hps _ hb).2.2
    cases hpoint
  have hglyphs : l.codePoints.map glyphAt = cs.map .char := by
    change (ps.filterMap Piece.codePoint?).map glyphAt = _
    rw [hpoints, List.map_map]
    exact List.map_congr_left fun c _ => glyphAt_toNat c
  have hpairs : l.Unpaired := by
    rw [Literal.unpaired_iff, hglyphs]
    refine (List.pairwise_iff_forall_sublist.mpr fun hpair => ?_).isChain
    rintro ⟨m, n, rfl, -⟩
    obtain ⟨c, -, hc⟩ := List.mem_map.mp (hpair.subset List.mem_cons_self)
    cases hc
  refine ⟨l, rfl, ?_, ?_⟩
  · unfold Literal.written Literal.body
    rw [hwritten]
  · rw [← (Literal.value_eq_text_iff l).mpr ⟨hfeeds, hpairs⟩, Literal.value_of_feedsOnly hfeeds, hglyphs]

theorem isLiteralOf_flatMap {s : String} (hquote : quote = '\'' ∨ quote = '"')
    (h : ∀ c ∈ s.toList, Writes quote (write c) c) :
    IsLiteralOf quote (String.ofList (quote :: s.toList.flatMap write ++ [quote])) s where
  literal := exists_literal hquote h
  oneLine := fun c hc => by
    have hends : quote ≠ '\n' ∧ quote ≠ '\r' := by
      rcases hquote with rfl | rfl
      · decide
      · decide
    rw [String.toList_ofList, List.cons_append, List.mem_cons, List.mem_append, List.mem_singleton] at hc
    rcases hc with rfl | hc | rfl
    · exact hends
    · obtain ⟨d, hd, hc⟩ := List.mem_flatMap.mp hc
      exact (h d hd).oneLine c hc
    · exact hends
  token := fun before after dialect c hpos => by
    obtain ⟨chars, hchars⟩ : ∃ chars, chars = quote :: s.toList.flatMap write ++ [quote] := ⟨_, rfl⟩
    have hsize : (String.ofList chars).utf8ByteSize = chars.utf8Encode.size := by
      rw [← String.size_toByteArray, String.toByteArray_ofList]
    have hspells : Input.Spells ⟨(before ++ String.ofList chars ++ after).toUTF8, dialect⟩ c.pos chars := by
      refine ⟨after.toByteArray, ?_⟩
      change (before ++ String.ofList chars ++ after).toByteArray.extract c.pos
        (before ++ String.ofList chars ++ after).toByteArray.size = _
      rw [String.toByteArray_append, String.toByteArray_append, String.toByteArray_ofList, ByteArray.append_assoc]
      exact ByteArray.extract_append_eq_right hpos ByteArray.size_append
    rw [hchars] at hspells
    obtain ⟨parts, c', hstop, hread⟩ := stringLiteral_of_spells hquote (fun c hc => (h c hc).passes)
      (fun c hc => (h c hc).ne_nil) hspells
    rw [← hchars] at hspells hstop hread ⊢
    exact ⟨parts, c', by rw [hstop, hsize], hread⟩

/-- A string is written as one literal between double quotes, and read back from it. -/
theorem encode_literal (s : String) : ∃ w, encode (Text.ofString s) = Text.ofString w ∧
    IsLiteralOf '"' w s ∧ decode ((w.toList.drop 1).dropLast) = .ok (Text.ofString s) := by
  refine ⟨_, between_ofString '"' (fun _ => rfl) s, ?_, ?_⟩
  · exact isLiteralOf_flatMap (.inr rfl) fun c _ => writes_escapeChar c
  · rw [String.toList_ofList]
    exact decode_between stands_escapeChar s.toList '"'

example : encode (Text.ofString "say \"hi\"\n") = Text.ofString "\"say \\\"hi\\\"\\n\"" := by decide +kernel

/-- With the quote of an existing literal. The ends of line of a string are written as they are, so what is
written is a literal exactly for the strings without them; the string is read back in every case. -/
theorem requote_literal_iff {existing s : String} {quote : Char} (hquote : quote = '\'' ∨ quote = '"')
    (hexisting : existing.toList.head? = some quote) :
    ∃ w, requote existing (Text.ofString s) = Text.ofString w ∧
      decode ((w.toList.drop 1).dropLast) = .ok (Text.ofString s) ∧
        (IsLiteralOf quote w s ↔ ∀ c ∈ s.toList, c ≠ '\n' ∧ c ≠ '\r') := by
  have hwritten : requote existing (Text.ofString s) =
      Text.ofString (String.ofList (quote :: s.toList.flatMap (escapeFor quote) ++ [quote])) := by
    obtain ⟨rest, hchars⟩ := List.head?_eq_some_iff.mp hexisting
    unfold requote
    rw [hchars]
    dsimp only
    rw [if_pos (by simpa using hquote)]
    refine between_ofString quote (fun c => ?_) s
    unfold escapeFor
    dsimp only
    split <;> rfl
  refine ⟨_, hwritten, ?_, ?_⟩
  · rw [String.toList_ofList]
    exact decode_between (stands_escapeFor hquote) s.toList quote
  · refine ⟨fun h c hc => h.oneLine c ?_,
      fun h => isLiteralOf_flatMap hquote fun c hc => writes_escapeFor hquote (h c hc)⟩
    rw [String.toList_ofList, List.cons_append]
    refine List.mem_cons_of_mem _ (List.mem_append_left _ (List.mem_flatMap.mpr ⟨c, hc, ?_⟩))
    unfold escapeFor
    split
    · exact List.mem_cons_of_mem _ List.mem_cons_self
    · exact List.mem_cons_self

theorem requote_literal_of_quotes : ∃ w,
    requote "'x'" (Text.ofString "it's \\ \"so\"\t") = Text.ofString w ∧
      decode ((w.toList.drop 1).dropLast) = .ok (Text.ofString "it's \\ \"so\"\t") ∧
        IsLiteralOf '\'' w "it's \\ \"so\"\t" := by
  obtain ⟨w, hwritten, hdecode, hliteral⟩ :=
    @requote_literal_iff "'x'" "it's \\ \"so\"\t" '\'' (.inl rfl) (by simp)
  exact ⟨w, hwritten, hdecode, hliteral.mpr (by simp)⟩

/-- A line feed is left bare in the literal, and a script with the literal is not read. -/
theorem requote_breaks_line :
    requote "'x'" (Text.ofString "a\nb") = Text.ofString "'a\nb'" ∧ ¬ IsLiteralOf '\'' "'a\nb'" "a\nb" ∧
      (Document.ofString none "'a\nb';").isOk = false := by
  refine ⟨by decide +kernel, fun h => ?_, by decide +kernel⟩
  exact (h.oneLine '\n' (by simp)).1 rfl

end Quoted

end TestMigration
