import TestMigration.Script.Parse

/-! Where the characters of a script begin and end. The readers count bytes; a cut is an offset that
parts no character. A step over a character that is read at a cut ends at a cut, and so does a step over
one byte if the character has no more. From these steps come the scans for blanks, words and numbers. -/

namespace TestMigration.Script

/-! ## Bytes of characters -/

/-- The bytes of a character are its number alone or lie above those of plain characters. -/
theorem toNat_of_mem_utf8EncodeChar {c : Char} {b : UInt8} (hb : b ∈ String.utf8EncodeChar c) :
    b.toNat = c.toNat ∨ 128 ≤ b.toNat := by
  unfold String.utf8EncodeChar at hb
  dsimp only at hb
  have hc : c.val.toNat = c.toNat := rfl
  split at hb
  · rename_i hle
    rw [List.mem_singleton.mp hb, UInt8.toNat_ofNat', Nat.mod_eq_of_lt (by omega)]
    exact .inl hc
  · refine .inr ?_
    split at hb
    · simp only [List.mem_cons, List.not_mem_nil, or_false] at hb
      rcases hb with rfl | rfl <;> rw [UInt8.toNat_ofNat'] <;> omega
    split at hb
    · simp only [List.mem_cons, List.not_mem_nil, or_false] at hb
      rcases hb with rfl | rfl | rfl <;> rw [UInt8.toNat_ofNat'] <;> omega
    · simp only [List.mem_cons, List.not_mem_nil, or_false] at hb
      rcases hb with rfl | rfl | rfl | rfl <;> rw [UInt8.toNat_ofNat'] <;> omega

theorem toList_toUTF8 (text : String) :
    text.toUTF8.data.toList = text.toList.flatMap String.utf8EncodeChar := by
  rw [String.toUTF8_eq_toByteArray, ← String.utf8Encode_toList]
  exact List.toList_data_toByteArray

/-! ## Cuts of a text -/

/-- The offset stands between two characters of the text, or at one of its ends. -/
def Cut (source : String) (p : Nat) : Prop := String.Pos.Raw.IsValid source ⟨p⟩

/-- The characters that take one byte. -/
def Narrow (c : Char) : Prop := c.utf8Size = 1

instance (c : Char) : Decidable (Narrow c) := inferInstanceAs (Decidable (c.utf8Size = 1))

theorem narrow_iff {c : Char} : Narrow c ↔ c.toNat < 128 := by
  unfold Narrow
  rw [Char.utf8Size_eq_one_iff, UInt32.le_iff_toNat_le]
  exact Nat.lt_succ_iff.symm

theorem toNat_ofNat {n : Nat} (hn : n < 128) : (Char.ofNat n).toNat = n := by
  unfold Char.ofNat
  rw [dif_pos (.inl (by omega))]
  rfl

theorem narrow_ofNat {n : Nat} (hn : n < 128) : Narrow (Char.ofNat n) := by
  rw [narrow_iff, toNat_ofNat hn]
  exact hn

section

variable {source : String} {p q : Nat}

theorem cut_zero (source : String) : Cut source 0 := String.Pos.Raw.isValid_zero

theorem cut_size (source : String) : Cut source source.toUTF8.size :=
  String.Pos.Raw.isValid_rawEndPos

theorem Cut.le_size (h : Cut source p) : p ≤ source.toUTF8.size := h.le_utf8ByteSize

/-- A piece of the bytes that is a text ends at a cut. -/
theorem cut_of_piece (hlt : p < q) (hle : q ≤ source.toUTF8.size)
    (h : (source.toUTF8.extract p q).IsValidUTF8) : Cut source q := by
  have hpiece := (String.Pos.Raw.isValidUTF8_extract_iff (s := source) ⟨p⟩ ⟨q⟩
    (Nat.le_of_lt hlt) hle).mp h
  refine (hpiece.resolve_left fun heq => ?_).2
  cases heq
  omega

/-- What lies between two cuts is a text. -/
theorem Cut.piece (hp : Cut source p) (hq : Cut source q) :
    (source.toUTF8.extract p q).IsValidUTF8 := by
  rcases Nat.le_total p q with hle | hle
  · exact (String.Pos.Raw.isValidUTF8_extract_iff (s := source) ⟨p⟩ ⟨q⟩ hle hq.le_size).mpr
      (.inr ⟨hp, hq⟩)
  · rw [ByteArray.extract_eq_empty_iff.mpr (by omega)]
    exact ByteArray.isValidUTF8_empty

/-- A text whose bytes stand at an offset ends at a cut. -/
theorem Cut.after (bytes : ByteArray) (hp : Cut source p) (hb : bytes.IsValidUTF8)
    (hle : p + bytes.size ≤ source.toUTF8.size)
    (h : source.toUTF8.extract p (p + bytes.size) = bytes) : Cut source (p + bytes.size) := by
  rcases Nat.eq_zero_or_pos bytes.size with hzero | hpos
  · rw [hzero]
    exact hp
  · refine cut_of_piece (p := p) (by omega) hle ?_
    rw [h]
    exact hb

end

theorem narrow_of_le {c d : Char} (hd : Narrow d) (h : c ≤ d) : Narrow c :=
  narrow_iff.mpr (Nat.lt_of_le_of_lt h (narrow_iff.mp hd))

theorem narrow_of_isDigit (c : Char) (h : c.isDigit = true) : Narrow c := by
  refine narrow_of_le (d := '9') (by decide) ?_
  simp only [Char.isDigit, Bool.and_eq_true, decide_eq_true_eq] at h
  exact h.2

theorem narrow_of_isHexDigit (c : Char) (h : isHexDigit c = true) : Narrow c := by
  simp only [isHexDigit, Bool.or_eq_true, Bool.and_eq_true, decide_eq_true_eq] at h
  rcases h with (h | h) | h
  · exact narrow_of_isDigit c h
  · exact narrow_of_le (by decide) h.2
  · exact narrow_of_le (by decide) h.2

theorem narrow_marks {c d : Char} (hc : Narrow c) (hd : Narrow d) : ∀ m ∈ [c, d], Narrow m :=
  List.forall_mem_cons.mpr ⟨hc, List.forall_mem_singleton.mpr hd⟩

/-- A byte below 128 is a character. -/
theorem piece_one {bytes : ByteArray} {p : Nat} (hlt : p < bytes.size)
    (hb : (bytes.get! p).toNat < 128) :
    bytes.extract p (p + 1) = [Char.ofNat (bytes.get! p).toNat].utf8Encode := by
  have hbyte : bytes[p] = (Char.ofNat (bytes.get! p).toNat).val.toUInt8 := by
    rw [← UInt8.toNat_inj, UInt32.toNat_toUInt8]
    change _ = (Char.ofNat (bytes.get! p).toNat).toNat % 256
    rw [toNat_ofNat hb, Nat.mod_eq_of_lt (by omega)]
    exact congrArg UInt8.toNat (getElem!_pos bytes.data p hlt).symm
  rw [List.utf8Encode_singleton, String.utf8EncodeChar_eq_singleton (narrow_ofNat hb), ← hbyte]
  apply ByteArray.ext_getElem
  · simp [ByteArray.size_extract]
    omega
  · intro k hk hk'
    obtain rfl : k = 0 := by simpa using hk'
    simp [ByteArray.getElem_extract]

/-! ## Trees on cuts -/

/-- The node and all nodes below it, tokens included, begin and end at cuts. -/
inductive Node.OnCuts (source : String) : Node → Prop where
  | mk {role : Option Field} {kind : Kind} {start stop : Nat} {children : List Node}
      (hstart : Cut source start) (hstop : Cut source stop)
      (hchildren : ∀ c ∈ children, Node.OnCuts source c) :
      Node.OnCuts source (.mk role kind start stop children)

theorem Node.OnCuts.child {source : String} {n c : Node} (h : n.OnCuts source)
    (hc : c ∈ n.children) : c.OnCuts source := by
  obtain ⟨-, -, hchildren⟩ := h
  exact hchildren c hc

/-- What such a node covers is a text. -/
theorem Node.OnCuts.piece {source : String} {n : Node} (h : n.OnCuts source) :
    (source.toUTF8.extract n.start n.stop).IsValidUTF8 := by
  obtain ⟨hstart, hstop, -⟩ := h
  exact hstart.piece hstop

theorem Node.onCuts_leaf {source : String} {role : Option Field} {kind : Kind} {start stop : Nat}
    (hstart : Cut source start) (hstop : Cut source stop) :
    Node.OnCuts source (.mk role kind start stop []) :=
  .mk hstart hstop (by simp)

/-! ## Steps from cut to cut -/

theorem some_of_orElse {α : Type} {x y : Option α} {a : α} (h : (x <|> y) = some a) :
    x = some a ∨ y = some a := by
  cases x with
  | none => exact .inr h
  | some x => exact .inl h

namespace Input

variable {source : String} {i : Input} {p q : Nat} {c : Char} {w : Nat} (hi : i.bytes = source.toUTF8)

include hi

/-- What is read at a cut is a whole character. -/
theorem char?_whole (hp : Cut source p) (h : i.char? p = some (c, w)) :
    w = c.utf8Size ∧ Cut source (p + w) := by
  have hwhole : ∀ {c : Char}, i.bytes.extract p (p + c.utf8Size) = [c].utf8Encode →
      p + c.utf8Size ≤ i.bytes.size → Cut source (p + c.utf8Size) := by
    intro c hpiece hle
    have hsize : [c].utf8Encode.size = c.utf8Size := by
      rw [List.utf8Encode_singleton, List.size_toByteArray, String.length_utf8EncodeChar]
    rw [hi] at hpiece hle
    have := hp.after [c].utf8Encode ByteArray.isValidUTF8_utf8Encode
    rw [hsize] at this
    exact this hle hpiece
  unfold char? at h
  split at h
  case isFalse => cases h
  case isTrue hlt =>
    dsimp only at h
    split at h
    · rename_i hb
      cases h
      have hone := narrow_ofNat hb
      refine ⟨hone.symm, ?_⟩
      rw [← hone] at ⊢
      refine hwhole ?_ ?_
      · rw [hone]
        exact piece_one hlt hb
      · rw [hone]
        exact hlt
    · split at h
      · rename_i d hd
        cases h
        have hle := ByteArray.le_size_of_utf8DecodeChar?_eq_some hd
        refine ⟨rfl, hwhole ?_ hle⟩
        rw [ByteArray.utf8DecodeChar?_eq_utf8DecodeChar?_extract] at hd
        have hrest : i.bytes.extract p (p + c.utf8Size) =
            (i.bytes.extract p i.bytes.size).extract 0 c.utf8Size := by
          rw [ByteArray.extract_extract, Nat.add_zero, Nat.min_eq_left hle]
        rw [hrest, ByteArray.eq_of_utf8DecodeChar?_eq_some hd, List.utf8Encode_singleton]
        exact ByteArray.extract_append_eq_left (by
          rw [List.size_toByteArray, String.length_utf8EncodeChar])
      · rename_i hnone
        have hdecodes := String.Pos.Raw.isValid_iff_isSome_utf8DecodeChar?.mp hp
        have hsome := hdecodes.resolve_left fun heq => by
          cases heq
          rw [hi] at hlt
          exact absurd hlt (Nat.lt_irrefl _)
        rw [hi] at hnone
        change (source.toUTF8.utf8DecodeChar? p).isSome = true at hsome
        rw [hnone] at hsome
        cases hsome

theorem cut_char (hp : Cut source p) (h : i.char? p = some (c, w)) : Cut source (p + w) :=
  (char?_whole hi hp h).2

theorem cut_narrow (hp : Cut source p) (h : i.char? p = some (c, w)) (hc : Narrow c) :
    Cut source (p + 1) := by
  obtain ⟨rfl, hq⟩ := char?_whole hi hp h
  rwa [show c.utf8Size = 1 from hc] at hq

theorem cut_is (hp : Cut source p) (h : i.is p c = true) (hc : Narrow c) : Cut source (p + 1) := by
  unfold is at h
  split at h
  · rename_i d _ hd
    obtain rfl : d = c := eq_of_beq h
    exact cut_narrow hi hp hd hc
  · cases h


/-- What the bytes that stand at an offset are, one by one. -/
theorem bytes_of_holdsBytes {bs : List UInt8} (hle : p ≤ source.toUTF8.size)
    (h : i.holdsBytes bs p = true) :
    p + bs.length ≤ source.toUTF8.size ∧
      ∀ k (hk : k < bs.length), source.toUTF8.get! (p + k) = bs[k] := by
  induction bs generalizing p with
  | nil => exact ⟨by simpa using hle, by simp⟩
  | cons b rest ih =>
    simp only [holdsBytes, Bool.and_eq_true, decide_eq_true_eq, beq_iff_eq] at h
    rw [hi] at h
    obtain ⟨⟨hlt, hb⟩, hrest⟩ := h
    obtain ⟨hsize, heach⟩ := ih hlt hrest
    refine ⟨by rw [List.length_cons]; omega, fun k hk => ?_⟩
    cases k with
    | zero => exact hb
    | succ k =>
      rw [show p + (k + 1) = p + 1 + k by omega]
      exact heach k _

theorem cut_holdsAt {text : String} (hp : Cut source p) (h : i.holdsAt p text = true) :
    Cut source (p + text.utf8ByteSize) := by
  obtain ⟨hle, heach⟩ := bytes_of_holdsBytes hi hp.le_size h
  have hlength : text.toUTF8.data.toList.length = text.toUTF8.size := by simp
  rw [hlength] at hle
  refine hp.after text.toUTF8 text.isValidUTF8 hle ?_
  apply ByteArray.ext_getElem
  · rw [ByteArray.size_extract]
    omega
  · intro k hk hk'
    have hbyte := heach k (by rw [hlength]; exact hk')
    rw [ByteArray.getElem_extract]
    have hlt : p + k < source.toUTF8.size := by omega
    exact (getElem!_pos source.toUTF8.data (p + k) hlt).symm.trans (hbyte.trans (by simp; rfl))

/-! ## Runs of characters -/

theorem cut_skipWhile (test : Char → Bool) (fuel : Nat) (hp : Cut source p) :
    Cut source (i.skipWhile test fuel p) := by
  induction fuel generalizing p with
  | zero => exact hp
  | succ fuel ih =>
    unfold skipWhile
    split
    · rename_i hc
      split
      · exact ih (cut_char hi hp hc)
      · exact hp
    · exact hp

theorem cut_skip (test : Char → Bool) (hp : Cut source p) : Cut source (i.skip test p) :=
  cut_skipWhile hi test _ hp

/-- Within a run of narrow characters every offset is a cut. -/
theorem cut_within {test : Char → Bool} (ht : ∀ c, test c = true → Narrow c) (hp : Cut source p)
    (hle : p ≤ q) (hq : q ≤ i.skip test p) : Cut source q := by
  unfold skip at hq
  generalize i.bytes.size + 1 - p = fuel at hq
  induction fuel generalizing p with
  | zero =>
    obtain rfl : q = p := Nat.le_antisymm hq hle
    exact hp
  | succ fuel ih =>
    rcases Nat.eq_or_lt_of_le hle with rfl | hlt
    · exact hp
    · unfold skipWhile at hq
      split at hq
      · rename_i c w hc
        split at hq
        · rename_i htest
          obtain rfl : w = 1 := (char?_whole hi hp hc).1.trans (ht c htest)
          exact ih (cut_char hi hp hc) hlt hq
        · omega
      · omega

/-! ## Words, numbers and comments -/

theorem cut_blockCommentStop? {fuel : Nat} (hp : Cut source p)
    (h : i.blockCommentStop? fuel p = some q) : Cut source q := by
  induction fuel generalizing p with
  | zero => cases h
  | succ fuel ih =>
    unfold blockCommentStop? at h
    split at h
    · cases h
    · rename_i c w hc
      split at h
      · rename_i hend
        cases h
        obtain ⟨hstar, hslash⟩ := Bool.and_eq_true_iff.mp hend
        obtain rfl : c = '*' := eq_of_beq hstar
        exact cut_is hi (cut_narrow hi hp hc (by decide)) hslash (by decide)
      · exact ih (cut_char hi hp hc) h

theorem cut_commentStop? (hp : Cut source p) (h : i.commentStop? p = some q) : Cut source q := by
  unfold commentStop? at h
  split at h
  · rename_i hline
    cases h
    exact cut_skip hi _ (cut_holdsAt hi hp hline)
  · split at h
    · rename_i hblock
      exact cut_blockCommentStop? hi (cut_holdsAt hi hp hblock) h
    · cases h

theorem cut_wordPartStop? {start : Bool} (hp : Cut source p)
    (h : i.wordPartStop? start p = some q) : Cut source q := by
  unfold wordPartStop? at h
  split at h
  · cases h
  rename_i c w hc
  by_cases hslash : (c == '\\') = true
  · rw [if_pos hslash] at h
    obtain rfl : c = '\\' := eq_of_beq hslash
    split at h
    · rename_i hbrace
      have hbody : Cut source (p + 3) := cut_holdsAt hi hp hbrace
      dsimp only at h
      split at h
      · rename_i hclosed
        cases h
        exact cut_is hi (cut_skip hi _ hbody) (Bool.and_eq_true_iff.mp hclosed).2 (by decide)
      · cases h
    · split at h
      · rename_i hdigits
        cases h
        obtain ⟨hu, hdigits⟩ := Bool.and_eq_true_iff.mp hdigits
        have hbody := cut_is hi (cut_narrow hi hp hc (by decide)) hu (by decide)
        exact cut_within hi narrow_of_isHexDigit hbody (by omega) (of_decide_eq_true hdigits)
      · cases h
  · rw [if_neg hslash] at h
    split at h
    · cases h
    · rw [Option.ite_none_right_eq_some] at h
      obtain ⟨-, h⟩ := h
      cases h
      exact cut_char hi hp hc

theorem cut_wordTail (fuel : Nat) (hp : Cut source p) : Cut source (i.wordTail fuel p) := by
  induction fuel generalizing p with
  | zero => exact hp
  | succ fuel ih =>
    unfold wordTail
    split
    · rename_i hpart
      exact ih (cut_wordPartStop? hi hp hpart)
    · exact hp

theorem cut_wordStop? (hp : Cut source p) (h : i.wordStop? p = some q) : Cut source q := by
  obtain ⟨first, hfirst, rfl⟩ := Option.map_eq_some_iff.mp h
  exact cut_wordTail hi _ (cut_wordPartStop? hi hp hfirst)

theorem cut_digits {test : Char → Bool} (ht : ∀ c, test c = true → Narrow c) (hp : Cut source p) :
    Cut source (i.digits test p) := by
  have hrun : ∀ fuel {p}, Cut source p → Cut source (i.digitsStop test fuel p) := by
    intro fuel
    induction fuel with
    | zero => exact fun hp => hp
    | succ fuel ih =>
      intro p hp
      unfold digitsStop
      split
      · exact hp
      rename_i c w hc
      split
      · exact ih (cut_char hi hp hc)
      · split
        · rename_i hmark
          obtain rfl : c = '_' := eq_of_beq hmark
          have hnext := cut_narrow hi hp hc (by decide)
          split
          · rename_i d _ hd
            split
            · rename_i hdigit
              exact ih (cut_narrow hi hnext hd (ht d hdigit))
            · exact hp
          · exact hp
        · exact hp
  unfold digits
  split
  · split
    · exact hrun _ hp
    · exact hp
  · exact hp

theorem cut_exponentStop (hp : Cut source p) : Cut source (i.exponentStop p) := by
  unfold exponentStop
  split
  · rename_i he
    have hmark : Cut source (p + 1) := by
      rcases Bool.or_eq_true_iff.mp he with he | he
      · exact cut_is hi hp he (by decide)
      · exact cut_is hi hp he (by decide)
    have hsign : Cut source (if i.is (p + 1) '+' || i.is (p + 1) '-' then p + 2 else p + 1) := by
      split
      · rename_i hs
        rcases Bool.or_eq_true_iff.mp hs with hs | hs
        · exact cut_is hi hmark hs (by decide)
        · exact cut_is hi hmark hs (by decide)
      · exact hmark
    have hend : ∀ {q}, Cut source q →
        Cut source (if q < i.digits Char.isDigit q then i.digits Char.isDigit q else p) := by
      intro q hq
      split
      · exact cut_digits hi narrow_of_isDigit hq
      · exact hp
    exact hend hsign
  · exact hp

theorem cut_radixStop? {marks : List Char} {test : Char → Bool} (hm : ∀ c ∈ marks, Narrow c)
    (ht : ∀ c, test c = true → Narrow c) (hp : Cut source p)
    (h : i.radixStop? p marks test = some q) : Cut source q := by
  unfold radixStop? at h
  split at h
  · rename_i hzero
    obtain ⟨hzero, hmark⟩ := Bool.and_eq_true_iff.mp hzero
    obtain ⟨mark, hmem, hmark⟩ := List.any_eq_true.mp hmark
    have hbody := cut_is hi (cut_is hi hp hzero (by decide)) hmark (hm mark hmem)
    dsimp only at h
    split at h
    · cases h
      unfold withBigSuffix
      split
      · rename_i hn
        exact cut_is hi (cut_digits hi ht hbody) hn (by decide)
      · exact cut_digits hi ht hbody
    · cases h
  · cases h

theorem cut_numberStop? (hp : Cut source p) (h : i.numberStop? p = some q) : Cut source q := by
  unfold numberStop? at h
  rcases some_of_orElse h with h | h
  · exact cut_radixStop? hi (narrow_marks (by decide) (by decide)) narrow_of_isHexDigit hp h
  rcases some_of_orElse h with h | h
  · refine cut_radixStop? hi (narrow_marks (by decide) (by decide)) (fun c hc => ?_) hp h
    rcases Bool.or_eq_true_iff.mp hc with hc | hc
    · rw [eq_of_beq hc]
      decide
    · rw [eq_of_beq hc]
      decide
  rcases some_of_orElse h with h | h
  · refine cut_radixStop? hi (narrow_marks (by decide) (by decide)) (fun c hc => ?_) hp h
    exact narrow_of_le (by decide) (of_decide_eq_true (Bool.and_eq_true_iff.mp hc).2)
  have hdigits : ∀ {p}, Cut source p → Cut source (i.digits Char.isDigit p) := fun hp =>
    cut_digits hi narrow_of_isDigit hp
  dsimp only at h
  split at h
  · split at h
    · rename_i hdot
      cases h
      exact cut_exponentStop hi (hdigits (cut_is hi (hdigits hp) hdot (by decide)))
    · split at h
      · rename_i hn
        cases h
        exact cut_is hi (hdigits hp) hn (by decide)
      · cases h
        exact cut_exponentStop hi (hdigits hp)
  · split at h
    · rename_i hdot
      split at h
      · cases h
        exact cut_exponentStop hi (hdigits (cut_is hi hp hdot (by decide)))
      · cases h
    · cases h

end Input

end TestMigration.Script
