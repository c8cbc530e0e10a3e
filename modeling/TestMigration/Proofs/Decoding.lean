import TestMigration.Proofs.Quoting
import Mathlib.Data.List.Chain

/-! What a literal stands for in the language: each piece of its body gives the UTF-16 code units of one
code point, a continued line gives none, and a high half with the low half behind it is one character.
A literal is read so up to two things: only a line feed continues a line, and halves are never joined. -/

namespace TestMigration.Quoted

open Script (Place)

/-! ## Literals by their pieces -/

/-- The ends of line that a backslash takes out of a literal. -/
inductive LineBreak where
  | lineFeed
  | carriageReturn
  | both
  | lineSeparator
  | paragraphSeparator
  deriving DecidableEq, Repr

namespace LineBreak

def chars : LineBreak → List Char
  | lineFeed => ['\n']
  | carriageReturn => ['\r']
  | both => ['\r', '\n']
  | lineSeparator => ['\u2028']
  | paragraphSeparator => ['\u2029']

/-- What the decoder leaves of it behind the backslash. -/
def kept (b : LineBreak) : List Char := if b = lineFeed then [] else b.chars

theorem kept_eq_nil {b : LineBreak} : b.kept = [] ↔ b = lineFeed := by
  cases b <;> decide

end LineBreak

/-- A hexadecimal digit of either case. -/
structure HexDigit where
  value : Fin 16
  upper : Bool
  deriving DecidableEq, Repr

namespace HexDigit

def char (h : HexDigit) : Char :=
  (if h.upper then "0123456789ABCDEF" else "0123456789abcdef").toList[h.value.val]?.getD '0'

/-- The number that digits write, the first one the highest. -/
def number (ds : List HexDigit) : Nat := ds.foldl (fun n h => 16 * n + h.value.val) 0

theorem hexValue?_char (h : HexDigit) : hexValue? h.char = some h.value.val := by
  have hall : ∀ (v : Fin 16) (b : Bool), hexValue? (char ⟨v, b⟩) = some v.val := by decide +kernel
  exact hall h.value h.upper

theorem char_ne_brace (h : HexDigit) : h.char ≠ '\x7b' := by
  intro hbrace
  have hvalue := h.hexValue?_char
  rw [hbrace] at hvalue
  cases hvalue

theorem hexNumber?_chars {ds : List HexDigit} (h : ds ≠ []) :
    hexNumber? (ds.map char) = some (number ds) := by
  have hfold : ∀ (ds : List HexDigit) (n : Nat),
      (ds.map char).foldlM (fun n c => (hexValue? c).map (16 * n + ·)) n =
        some (ds.foldl (fun n h => 16 * n + h.value.val) n) := by
    intro ds
    induction ds with
    | nil => exact fun _ => rfl
    | cons d ds ih =>
      intro n
      rw [List.map_cons, List.foldlM_cons, hexValue?_char]
      exact ih _
  cases ds with
  | nil => exact absurd rfl h
  | cons d ds => exact hfold (d :: ds) 0

end HexDigit

/-- A character behind a backslash that stands for one character: none that begins another escape, and
no end of line. -/
def isSimple (c : Char) : Bool := !"xu123456789\n\r\u2028\u2029".toList.contains c

/-- What a simple escape stands for. -/
def escapedChar : Char → Char
  | 'b' => '\x08'
  | 't' => '\x09'
  | 'n' => '\x0a'
  | 'v' => '\x0b'
  | 'f' => '\x0c'
  | 'r' => '\x0d'
  | '0' => '\x00'
  | c => c

/-- A piece of the body of a literal. -/
inductive Piece where
  | plain (c : Char) (h : c ≠ '\\' ∧ c ≠ '\n' ∧ c ≠ '\r')
  | escaped (c : Char) (h : isSimple c = true)
  | hex (a b : HexDigit)
  | unit (a b c d : HexDigit)
  | point (digits : List HexDigit) (h : digits ≠ [] ∧ HexDigit.number digits ≤ 0x10FFFF)
  | continued (b : LineBreak)
  deriving DecidableEq, Repr

namespace Piece

def written : Piece → List Char
  | plain c _ => [c]
  | escaped c _ => ['\\', c]
  | hex a b => ['\\', 'x', a.char, b.char]
  | unit a b c d => ['\\', 'u', a.char, b.char, c.char, d.char]
  | point digits _ => '\\' :: 'u' :: '\x7b' :: digits.map HexDigit.char ++ ['\x7d']
  | continued b => '\\' :: b.chars

/-- The code point that the language takes the piece for; none where a line is continued. -/
def codePoint? : Piece → Option Nat
  | plain c _ => some c.toNat
  | escaped c _ => some (escapedChar c).toNat
  | hex a b => some (HexDigit.number [a, b])
  | unit a b c d => some (HexDigit.number [a, b, c, d])
  | point digits _ => some (HexDigit.number digits)
  | continued _ => none

end Piece

/-- A literal with either quote. The quote does not occur bare, and no digit follows an escaped zero. -/
structure Literal where
  quote : Char
  quoted : quote = '\'' ∨ quote = '"'
  pieces : List Piece
  bare : ∀ p ∈ pieces, p.written ≠ [quote]
  zeros : pieces.IsChain fun p q => p.written = ['\\', '0'] → ∀ c ∈ q.written.head?, c.isDigit = false

/-! ## Code units -/

def isHigh (n : Nat) : Bool := 0xD800 ≤ n && n < 0xDC00

def isLow (n : Nat) : Bool := 0xDC00 ≤ n && n < 0xE000

/-- The UTF-16 code units of a code point. -/
def unitsOf (n : Nat) : List Nat :=
  if n < 0x10000 then [n] else [0xD800 + (n - 0x10000) / 0x400, 0xDC00 + (n - 0x10000) % 0x400]

/-- The glyph of a code point. -/
def glyphAt (n : Nat) : Glyph :=
  if h : 0xD800 ≤ n ∧ n < 0xE000 then .lone ⟨n - 0xD800, by omega⟩ else .char (Char.ofNat n)

/-- The text of code units: a high half and the low half behind it are one character. -/
def textOf : List Nat → Text
  | [] => []
  | [u] => [glyphAt u]
  | u :: v :: rest =>
    if isHigh u && isLow v then
      .char (Char.ofNat (0x10000 + (u - 0xD800) * 0x400 + (v - 0xDC00))) :: textOf rest
    else glyphAt u :: textOf (v :: rest)

namespace Literal

def body (l : Literal) : List Char := l.pieces.flatMap Piece.written

def written (l : Literal) : String := String.ofList (l.quote :: l.body ++ [l.quote])

def codePoints (l : Literal) : List Nat := l.pieces.filterMap Piece.codePoint?

/-- The text that the language assigns to the literal. -/
def text (l : Literal) : Text := textOf (l.codePoints.flatMap unitsOf)

/-- Lines are continued behind line feeds only. -/
def FeedsOnly (l : Literal) : Prop := ∀ b, .continued b ∈ l.pieces → b = .lineFeed

/-- No high half has a low half behind it. -/
def Unpaired (l : Literal) : Prop := l.codePoints.IsChain fun m n => ¬ (isHigh m = true ∧ isLow n = true)

end Literal

/-! ## Pieces that are read -/

/-- What is written is read as the text, and reading goes on behind it. -/
def Reads (written : List Char) (t : Text) : Prop :=
  ∃ n ≤ written.length, ∀ fuel rest, decodeWithin (fuel + n) (written ++ rest) =
    do return t ++ (← decodeWithin fuel rest)

variable {written written' : List Char} {t t' : Text} {c : Char}

theorem reads_nil : Reads [] [] := by
  refine ⟨0, Nat.le_refl 0, fun fuel rest => ?_⟩
  change decodeWithin fuel rest = _
  cases decodeWithin fuel rest <;> rfl

theorem Reads.append (h : Reads written t) (h' : Reads written' t') :
    Reads (written ++ written') (t ++ t') := by
  obtain ⟨n, hn, h⟩ := h
  obtain ⟨m, hm, h'⟩ := h'
  refine ⟨m + n, by rw [List.length_append]; omega, fun fuel rest => ?_⟩
  rw [← Nat.add_assoc, List.append_assoc, h, h']
  cases decodeWithin fuel rest with
  | error e => rfl
  | ok text => exact congrArg Except.ok (List.append_assoc t t' text).symm

theorem Reads.decode (h : Reads written t) : decode written = .ok t := by
  obtain ⟨n, hn, h⟩ := h
  have hread := h (written.length - n) []
  have hend : ∀ fuel, decodeWithin fuel [] = .ok [] := by
    intro fuel
    cases fuel <;> rfl
  rw [Nat.sub_add_cancel hn, List.append_nil, hend] at hread
  exact hread.trans (congrArg Except.ok (List.append_nil t))

theorem Stands.reads (h : Stands written c) : Reads written [.char c] :=
  ⟨1, List.length_pos_iff_ne_nil.mpr h.ne_nil, h⟩

/-- A backslash before a character that begins no escape of a code point. -/
theorem reads_escaped (hu : c ≠ 'u') (hx : c ≠ 'x') : Reads ['\\', c] (simpleEscape c) := by
  refine ⟨1, Nat.le_add_left 1 1, fun fuel rest => ?_⟩
  change decodeWithin (fuel + 1) ('\\' :: c :: rest) = _
  rw [decodeWithin, numericEscape?_none hu hx]

theorem ofCodePoint?_eq {n : Nat} (h : n < 0x110000) : Glyph.ofCodePoint? n = some (glyphAt n) := by
  unfold Glyph.ofCodePoint? glyphAt
  by_cases hhalf : 0xD800 ≤ n ∧ n < 0xE000
  · rw [dif_pos hhalf, dif_neg (by unfold Nat.isValidChar; omega), if_pos hhalf.1,
      dif_pos (by omega)]
  · have hvalid : n.isValidChar := by
      unfold Nat.isValidChar
      omega
    rw [dif_neg hhalf, dif_pos hvalid, Char.ofNat, dif_pos hvalid]

theorem glyphAt_toNat (c : Char) : glyphAt c.toNat = .char c := by
  have hvalid : c.toNat.isValidChar := c.valid
  unfold glyphAt
  rw [dif_neg (by unfold Nat.isValidChar at hvalid; omega), Char.ofNat_toNat]

/-- The escape of a code point. -/
theorem reads_numeric {escape : List Char} {n : Nat} (hlt : n < 0x110000)
    (hescape : ∀ rest, numericEscape? (escape ++ rest) = some (n, escape.length)) :
    Reads ('\\' :: escape) [glyphAt n] := by
  have hcons : ∃ c cs, escape = c :: cs := by
    cases escape with
    | nil => cases hescape []
    | cons c cs => exact ⟨c, cs, rfl⟩
  obtain ⟨c, cs, rfl⟩ := hcons
  refine ⟨1, Nat.le_add_left 1 _, fun fuel rest => ?_⟩
  change decodeWithin (fuel + 1) ('\\' :: c :: (cs ++ rest)) = _
  have hread := hescape rest
  rw [List.cons_append] at hread
  rw [decodeWithin, hread]
  dsimp only
  rw [ofCodePoint?_eq hlt]
  dsimp only
  rw [← List.cons_append, List.drop_left]
  rfl

namespace HexDigit

theorem number_lt (ds : List HexDigit) : number ds < Nat.pow 16 ds.length := by
  have hfold : ∀ (ds : List HexDigit) (n k : Nat), n < Nat.pow 16 k →
      ds.foldl (fun n h => 16 * n + h.value.val) n < Nat.pow 16 (k + ds.length) := by
    intro ds
    induction ds with
    | nil => exact fun _ _ h => h
    | cons d ds ih =>
      intro n k hn
      have hd := d.value.isLt
      rw [List.foldl_cons, List.length_cons, Nat.add_comm ds.length, ← Nat.add_assoc]
      refine ih _ _ ?_
      change _ < Nat.pow 16 k * 16
      omega
  have h := hfold ds 0 0 (by decide)
  rwa [Nat.zero_add] at h

theorem takeWhile_chars (ds : List HexDigit) (rest : List Char) :
    (ds.map char ++ '\x7d' :: rest).takeWhile (fun c => (hexValue? c).isSome) = ds.map char := by
  rw [List.takeWhile_append_of_pos, List.takeWhile_cons_of_neg (by decide), List.append_nil]
  intro c hc
  obtain ⟨d, -, rfl⟩ := List.mem_map.mp hc
  rw [hexValue?_char]
  rfl

end HexDigit

namespace Piece

theorem codePoint?_lt {p : Piece} {n : Nat} (h : p.codePoint? = some n) : n < 0x110000 := by
  have hchar : ∀ c : Char, c.toNat < 0x110000 := fun c => by
    rcases c.valid with hvalid | hvalid
    · exact Nat.lt_trans hvalid (by decide)
    · exact hvalid.2
  cases p with
  | plain c _ =>
    cases h
    exact hchar c
  | escaped c _ =>
    cases h
    exact hchar _
  | hex a b =>
    cases h
    exact Nat.lt_trans (HexDigit.number_lt [a, b]) (show Nat.pow 16 2 < 0x110000 by decide)
  | unit a b c d =>
    cases h
    exact Nat.lt_trans (HexDigit.number_lt [a, b, c, d]) (show Nat.pow 16 4 < 0x110000 by decide)
  | point digits hdigits =>
    cases h
    exact Nat.lt_succ_of_le hdigits.2
  | continued b => cases h

/-- The end of line that is left of the piece. -/
def kept : Piece → List Char
  | continued b => b.kept
  | _ => []

/-- What is read for the piece. -/
def read (p : Piece) : Text := p.codePoint?.toList.map glyphAt ++ p.kept.map .char

theorem simpleEscape_of_isSimple {c : Char} (h : isSimple c = true) :
    c ≠ 'u' ∧ c ≠ 'x' ∧ simpleEscape c = [.char (escapedChar c)] := by
  refine ⟨?_, ?_, ?_⟩
  · rintro rfl
    cases h
  · rintro rfl
    cases h
  · unfold simpleEscape escapedChar
    split
    case h_8 => cases h
    case h_9 => split <;> first | rfl | contradiction
    all_goals rfl

theorem reads (p : Piece) : Reads p.written p.read := by
  unfold read
  cases p with
  | plain c h =>
    change Reads [c] [glyphAt c.toNat]
    rw [glyphAt_toNat]
    exact (stands_self h.1).reads
  | escaped c h =>
    obtain ⟨hu, hx, hsimple⟩ := simpleEscape_of_isSimple h
    change Reads ['\\', c] [glyphAt (escapedChar c).toNat]
    rw [glyphAt_toNat, ← hsimple]
    exact reads_escaped hu hx
  | hex a b =>
    refine reads_numeric (codePoint?_lt (p := hex a b) rfl) fun rest => ?_
    change (hexNumber? ([a, b].map HexDigit.char)).map _ = _
    rw [HexDigit.hexNumber?_chars (by simp)]
    rfl
  | unit a b c d =>
    refine reads_numeric (codePoint?_lt (p := unit a b c d) rfl) fun rest => ?_
    change numericEscape? ('u' :: a.char :: b.char :: c.char :: d.char :: rest) = _
    rw [numericEscape?]
    · change (hexNumber? ([a, b, c, d].map HexDigit.char)).map _ = _
      rw [HexDigit.hexNumber?_chars (by simp)]
      rfl
    · exact a.char_ne_brace
  | point digits h =>
    refine reads_numeric (codePoint?_lt (p := point digits h) rfl) fun rest => ?_
    change numericEscape? ('u' :: '\x7b' :: (digits.map HexDigit.char ++ ['\x7d'] ++ rest)) = _
    rw [numericEscape?, List.append_assoc, List.singleton_append, HexDigit.takeWhile_chars,
      HexDigit.hexNumber?_chars h.1, List.drop_left]
    have hlength : ('u' :: '\x7b' :: digits.map HexDigit.char ++ ['\x7d']).length =
        (digits.map HexDigit.char).length + 3 := by
      rw [List.length_append, List.length_cons, List.length_cons]
      rfl
    exact congrArg (fun n => some (HexDigit.number digits, n)) hlength.symm
  | continued b =>
    cases b with
    | lineFeed => exact reads_escaped (by decide) (by decide)
    | carriageReturn => exact reads_escaped (by decide) (by decide)
    | both =>
      have hreturn : Reads ['\\', '\r'] [.char '\r'] := reads_escaped (by decide) (by decide)
      have hfeed : Reads ['\n'] [.char '\n'] := (stands_self (by decide)).reads
      exact hreturn.append hfeed
    | lineSeparator => exact reads_escaped (by decide) (by decide)
    | paragraphSeparator => exact reads_escaped (by decide) (by decide)

end Piece

theorem reads_pieces (ps : List Piece) : Reads (ps.flatMap Piece.written) (ps.flatMap Piece.read) := by
  induction ps with
  | nil => exact reads_nil
  | cons p ps ih =>
    rw [List.flatMap_cons, List.flatMap_cons]
    exact p.reads.append ih

/-! ## Texts and their code units -/

/-- The UTF-16 code units of a glyph. -/
def unitsIn : Glyph → List Nat
  | .char c => unitsOf c.toNat
  | .lone n => [0xD800 + n.val]

/-- A high half that stands directly before a low one. -/
def Splits (g h : Glyph) : Prop := ∃ m n, g = .lone m ∧ h = .lone n ∧ m.val < 0x400 ∧ 0x400 ≤ n.val

theorem toNat_ofNat {n : Nat} (h : n.isValidChar) : (Char.ofNat n).toNat = n := by
  rw [Char.ofNat, dif_pos h]
  rfl

theorem unitsIn_glyphAt {n : Nat} (h : n < 0x110000) : unitsIn (glyphAt n) = unitsOf n := by
  unfold glyphAt
  split
  · rename_i hhalf
    change [0xD800 + (n - 0xD800)] = _
    rw [unitsOf, if_pos (by omega), Nat.add_sub_cancel' hhalf.1]
  · rename_i hhalf
    have hvalid : n.isValidChar := by
      unfold Nat.isValidChar
      omega
    change unitsOf (Char.ofNat n).toNat = _
    rw [toNat_ofNat hvalid]

theorem glyphAt_lone {n : Nat} {m : Fin 0x800} (h : glyphAt n = .lone m) : n = 0xD800 + m.val := by
  unfold glyphAt at h
  split at h
  · rename_i hhalf
    have hm := congrArg Fin.val (Glyph.lone.inj h)
    dsimp only at hm
    omega
  · cases h

theorem unitsOf_lt {n : Nat} (h : n < 0x110000) : ∀ u ∈ unitsOf n, u < 0x10000 := by
  intro u hu
  unfold unitsOf at hu
  split at hu
  · rename_i hlt
    obtain rfl := List.mem_singleton.mp hu
    exact hlt
  · rw [List.mem_pair] at hu
    omega

/-- The code units of the text are those that it was made of. -/
theorem unitsIn_textOf (us : List Nat) (h : ∀ u ∈ us, u < 0x10000) : (textOf us).flatMap unitsIn = us := by
  have hone : ∀ u, u < 0x10000 → unitsIn (glyphAt u) = [u] := by
    intro u hu
    rw [unitsIn_glyphAt (by omega), unitsOf, if_pos hu]
  induction us using textOf.induct with
  | case1 => rfl
  | case2 u =>
    rw [textOf, List.flatMap_singleton, hone u (h u (List.mem_singleton_self u))]
  | case3 u v rest hpair ih =>
    rw [textOf, if_pos hpair, List.flatMap_cons,
      ih fun w hw => h w (List.mem_cons_of_mem _ (List.mem_cons_of_mem _ hw))]
    simp only [isHigh, isLow, Bool.and_eq_true, decide_eq_true_eq] at hpair
    have hvalid : (0x10000 + (u - 0xD800) * 0x400 + (v - 0xDC00)).isValidChar := by
      unfold Nat.isValidChar
      omega
    change unitsOf (Char.ofNat _).toNat ++ rest = _
    rw [toNat_ofNat hvalid, unitsOf, if_neg (by omega)]
    have hu : 0xD800 + (0x10000 + (u - 0xD800) * 0x400 + (v - 0xDC00) - 0x10000) / 0x400 = u := by omega
    have hv : 0xDC00 + (0x10000 + (u - 0xD800) * 0x400 + (v - 0xDC00) - 0x10000) % 0x400 = v := by omega
    rw [hu, hv]
    rfl
  | case4 u v rest hpair ih =>
    rw [textOf, if_neg hpair, List.flatMap_cons, hone u (h u List.mem_cons_self),
      ih fun w hw => h w (List.mem_cons_of_mem _ hw)]
    rfl

/-- The first glyph of the text is a low half only where the first code unit is one. -/
theorem low_of_head_textOf {u : Nat} {us : List Nat} {n : Fin 0x800}
    (h : (textOf (u :: us)).head? = some (.lone n)) : u = 0xD800 + n.val := by
  cases us with
  | nil => exact glyphAt_lone (Option.some.inj h)
  | cons v us =>
    rw [textOf] at h
    split at h
    · cases h
    · exact glyphAt_lone (Option.some.inj h)

/-- Halves are joined in the text of code units. -/
theorem not_splits_textOf (us : List Nat) : (textOf us).IsChain fun g h => ¬ Splits g h := by
  induction us using textOf.induct with
  | case1 => exact .nil
  | case2 u => exact .singleton _
  | case3 u v rest hpair ih =>
    rw [textOf, if_pos hpair]
    refine List.isChain_cons.mpr ⟨?_, ih⟩
    rintro g - ⟨m, n, hg, -⟩
    cases hg
  | case4 u v rest hpair ih =>
    rw [textOf, if_neg hpair]
    refine List.isChain_cons.mpr ⟨?_, ih⟩
    rintro g hg ⟨m, n, hm, rfl, hhigh, hlow⟩
    have hu := glyphAt_lone hm
    have hv := low_of_head_textOf hg
    have hn := n.isLt
    refine hpair ?_
    simp only [isHigh, isLow, Bool.and_eq_true, decide_eq_true_eq]
    omega

/-- The first code unit of a text whose first glyph is no low half. -/
theorem not_low_of_head {t : Text} (h : ∀ n : Fin 0x800, 0x400 ≤ n.val → t.head? ≠ some (.lone n)) :
    ∀ u ∈ (t.flatMap unitsIn).head?, isLow u = false := by
  cases t with
  | nil => exact fun _ hu => absurd hu (Option.not_mem_none _)
  | cons g t =>
    intro u hu
    cases g with
    | lone n =>
      have hn : n.val < 0x400 := Nat.lt_of_not_le fun hn => h n hn rfl
      obtain rfl : 0xD800 + n.val = u := Option.some.inj hu
      unfold isLow
      rw [Bool.and_eq_false_iff]
      exact .inl (decide_eq_false (by omega))
    | char c =>
      have hvalid : c.toNat.isValidChar := c.valid
      unfold Nat.isValidChar at hvalid
      rw [List.flatMap_cons, unitsIn, unitsOf] at hu
      have hu : u = c.toNat ∧ c.toNat < 0x10000 ∨ u = 0xD800 + (c.toNat - 0x10000) / 0x400 := by
        split at hu
        · rename_i hlt
          exact .inl ⟨(Option.some.inj hu).symm, hlt⟩
        · exact .inr (Option.some.inj hu).symm
      unfold isLow
      rw [Bool.and_eq_false_iff, decide_eq_false_iff_not, decide_eq_false_iff_not]
      omega

/-- A text in which no halves are left to join is that of its code units. -/
theorem textOf_unitsIn {t : Text} (h : t.IsChain fun g h => ¬ Splits g h) :
    textOf (t.flatMap unitsIn) = t := by
  have hskip : ∀ (u : Nat) (us : List Nat), (isHigh u = true → ∀ v ∈ us.head?, isLow v = false) →
      textOf (u :: us) = glyphAt u :: textOf us := by
    intro u us hus
    cases us with
    | nil => rfl
    | cons v us =>
      rw [textOf, if_neg]
      intro hpair
      obtain ⟨hu, hv⟩ := Bool.and_eq_true_iff.mp hpair
      rw [hus hu v rfl] at hv
      cases hv
  induction t with
  | nil => rfl
  | cons g t ih =>
    obtain ⟨hhead, htail⟩ := List.isChain_cons.mp h
    rw [List.flatMap_cons]
    cases g with
    | lone n =>
      change textOf ((0xD800 + n.val) :: t.flatMap unitsIn) = _
      have hn := n.isLt
      have hglyph : glyphAt (0xD800 + n.val) = .lone n := by
        unfold glyphAt
        rw [dif_pos (by omega)]
        exact congrArg Glyph.lone (Fin.ext (Nat.add_sub_cancel_left _ _))
      rw [hskip, ih htail, hglyph]
      intro hhigh
      refine not_low_of_head fun k hk hlow => hhead _ hlow ⟨n, k, rfl, rfl, ?_, hk⟩
      simp only [isHigh, Bool.and_eq_true, decide_eq_true_eq] at hhigh
      omega
    | char c =>
      have hvalid : c.toNat.isValidChar := c.valid
      unfold Nat.isValidChar at hvalid
      rw [unitsIn, unitsOf]
      split
      · rw [List.singleton_append, hskip, ih htail, glyphAt_toNat]
        intro hhigh
        simp only [isHigh, Bool.and_eq_true, decide_eq_true_eq] at hhigh
        omega
      · change textOf (_ :: _ :: t.flatMap unitsIn) = _
        rw [textOf, if_pos, ih htail]
        · have hpoint : 0x10000 + (0xD800 + (c.toNat - 0x10000) / 0x400 - 0xD800) * 0x400 +
              (0xDC00 + (c.toNat - 0x10000) % 0x400 - 0xDC00) = c.toNat := by omega
          rw [hpoint, Char.ofNat_toNat]
        · simp only [isHigh, isLow, Bool.and_eq_true, decide_eq_true_eq]
          omega

/-! ## The value of a literal -/

namespace Literal

variable {l : Literal}

/-- What is read for the literal. -/
def value (l : Literal) : Text := l.pieces.flatMap Piece.read

theorem decode_written (l : Literal) : decode ((l.written.toList.drop 1).dropLast) = .ok l.value := by
  unfold written
  rw [String.toList_ofList, List.cons_append, List.drop_one, List.tail_cons, List.dropLast_concat]
  exact (reads_pieces l.pieces).decode

theorem codePoints_lt {n : Nat} (h : n ∈ l.codePoints) : n < 0x110000 := by
  obtain ⟨p, -, hp⟩ := List.mem_filterMap.mp h
  exact Piece.codePoint?_lt hp

theorem units_lt : ∀ u ∈ l.codePoints.flatMap unitsOf, u < 0x10000 := by
  intro u hu
  obtain ⟨n, hn, hu⟩ := List.mem_flatMap.mp hu
  exact unitsOf_lt (codePoints_lt hn) u hu

/-- Ends of line that are left stand between what the language takes the pieces for. -/
theorem length_units_read (ps : List Piece) : ((ps.flatMap Piece.read).flatMap unitsIn).length =
    ((ps.filterMap Piece.codePoint?).flatMap unitsOf).length + (ps.flatMap Piece.kept).length := by
  induction ps with
  | nil => rfl
  | cons p ps ih =>
    have hpiece : (p.read.flatMap unitsIn).length =
        (p.codePoint?.toList.flatMap unitsOf).length + p.kept.length := by
      have hkept : ∀ b : LineBreak, ((b.kept.map Glyph.char).flatMap unitsIn).length = b.kept.length := by
        intro b
        cases b <;> rfl
      unfold Piece.read
      rw [List.flatMap_append, List.length_append]
      cases hp : p.codePoint? with
      | none =>
        cases p with
        | continued b => exact congrArg _ (hkept b)
        | _ => cases hp
      | some n =>
        have hnone : p.kept = [] := by
          cases p with
          | continued b => cases hp
          | _ => rfl
        rw [hnone, Option.toList_some, List.map_singleton, List.flatMap_singleton, List.flatMap_singleton,
          unitsIn_glyphAt (Piece.codePoint?_lt hp)]
        rfl
    have hpoints : (p :: ps).filterMap Piece.codePoint? =
        p.codePoint?.toList ++ ps.filterMap Piece.codePoint? := by
      rw [List.filterMap_cons]
      cases p.codePoint? <;> rfl
    rw [List.flatMap_cons, List.flatMap_append, List.length_append, ih, hpiece, hpoints,
      List.flatMap_append, List.length_append, List.flatMap_cons, List.length_append]
    omega

theorem value_of_feedsOnly (h : l.FeedsOnly) : l.value = l.codePoints.map glyphAt := by
  have hpiece : ∀ p ∈ l.pieces, p.read = p.codePoint?.toList.map glyphAt := by
    intro p hp
    unfold Piece.read
    cases p with
    | continued b =>
      rw [h b hp]
      rfl
    | _ => rfl
  unfold value codePoints
  rw [List.flatMap_congr hpiece, List.filterMap_eq_flatMap_toList, List.map_flatMap]

theorem feedsOnly_of_kept (h : l.pieces.flatMap Piece.kept = []) : l.FeedsOnly := fun _ hb =>
  LineBreak.kept_eq_nil.mp (List.flatMap_eq_nil_iff.mp h _ hb)

theorem pairs_iff {m n : Nat} (hm : m < 0x110000) (hn : n < 0x110000) :
    isHigh m = true ∧ isLow n = true ↔ Splits (glyphAt m) (glyphAt n) := by
  simp only [isHigh, isLow, Bool.and_eq_true, decide_eq_true_eq]
  constructor
  · rintro ⟨hhigh, hlow⟩
    have hm : glyphAt m = .lone ⟨m - 0xD800, by omega⟩ := dif_pos (by omega)
    have hn : glyphAt n = .lone ⟨n - 0xD800, by omega⟩ := dif_pos (by omega)
    refine ⟨_, _, hm, hn, ?_, ?_⟩
    · dsimp only
      omega
    · dsimp only
      omega
  · rintro ⟨i, j, hi, hj, hhigh, hlow⟩
    have hj' := j.isLt
    have hm := glyphAt_lone hi
    have hn := glyphAt_lone hj
    omega

/-- The halves to be joined are those of the glyphs of the code points. -/
theorem unpaired_iff : l.Unpaired ↔ (l.codePoints.map glyphAt).IsChain fun g h => ¬ Splits g h := by
  unfold Unpaired
  rw [List.isChain_map]
  exact List.IsChain.iff_of_mem_imp fun m n hm hn =>
    not_congr (pairs_iff (codePoints_lt hm) (codePoints_lt hn))

/-- A literal is read as the text that the language assigns to it exactly if lines are continued behind
line feeds only and no halves are to be joined. -/
theorem value_eq_text_iff (l : Literal) : l.value = l.text ↔ l.FeedsOnly ∧ l.Unpaired := by
  constructor
  · intro h
    have hunits : l.value.flatMap unitsIn = l.codePoints.flatMap unitsOf := by
      rw [h]
      exact unitsIn_textOf _ units_lt
    have hfeeds : l.FeedsOnly := by
      refine feedsOnly_of_kept (List.length_eq_zero_iff.mp ?_)
      have hlength := length_units_read l.pieces
      have hsame := congrArg List.length hunits
      unfold value codePoints at hsame
      omega
    refine ⟨hfeeds, unpaired_iff.mpr ?_⟩
    rw [← value_of_feedsOnly hfeeds, h]
    exact not_splits_textOf _
  · rintro ⟨hfeeds, hpairs⟩
    have hunits : l.codePoints.flatMap unitsOf = (l.codePoints.map glyphAt).flatMap unitsIn := by
      rw [List.flatMap_map]
      exact List.flatMap_congr fun n hn => (unitsIn_glyphAt (codePoints_lt hn)).symm
    unfold text
    rw [hunits, textOf_unitsIn (unpaired_iff.mp hpairs)]
    exact value_of_feedsOnly hfeeds

/-- A pair of escaped halves. -/
def escapedPair : Literal where
  quote := '\''
  quoted := .inl rfl
  pieces := [.unit ⟨13, true⟩ ⟨8, false⟩ ⟨3, false⟩ ⟨13, true⟩,
    .unit ⟨13, true⟩ ⟨14, true⟩ ⟨0, false⟩ ⟨0, false⟩]
  bare := by decide +kernel
  zeros := by decide +kernel

example : escapedPair.text = [.char '😀'] ∧ escapedPair.value = [.lone 0x3D, .lone 0x600] := by decide +kernel

variable {d : Document} {p : Place}

theorem literalValue?_written (hd : d.Legible) (hp : p.Within d.root) (hstring : p.node.kind = .string)
    (hwritten : d.wording p.node = l.written) :
    (d.handle p).literalValue? d = .ok (some l.value) := by
  have hdecode : decode ((d.wording p.node).toList.drop 1).dropLast = .ok l.value := by
    rw [hwritten]
    exact l.decode_written
  rw [Handle.literalValue?_of_isOk hd (fun _ => hp) fun _ => by rw [hdecode]; rfl]
  unfold Document.valueOf?
  rw [if_pos (beq_iff_eq.mpr hstring), hdecode]
  rfl

/-- A literal of a script has a value. It is the text that the language assigns to the literal exactly if
lines are continued behind line feeds only and no escaped halves are to be joined; otherwise it holds the
other ends of line that lines are continued behind, and the halves one by one. -/
theorem literalValue?_eq_text_iff (hd : d.Legible) (hp : p.Within d.root) (hstring : p.node.kind = .string)
    (hwritten : d.wording p.node = l.written) :
    (d.handle p).literalValue? d = .ok (some l.value) ∧
      ((d.handle p).literalValue? d = .ok (some l.text) ↔ l.FeedsOnly ∧ l.Unpaired) := by
  have hvalue := literalValue?_written hd hp hstring hwritten
  refine ⟨hvalue, ?_⟩
  rw [hvalue, Except.ok.injEq, Option.some.injEq]
  exact l.value_eq_text_iff

/-- A piece of each kind. -/
def mixed : Literal where
  quote := '"'
  quoted := .inr rfl
  pieces := [.plain '\u00e9' (by decide +kernel), .escaped 'n' (by decide +kernel), .hex ⟨4, false⟩ ⟨13, true⟩,
    .unit ⟨0, false⟩ ⟨0, false⟩ ⟨4, false⟩ ⟨10, false⟩, .continued .lineFeed,
    .point [⟨1, false⟩, ⟨15, true⟩, ⟨6, false⟩, ⟨0, false⟩, ⟨0, false⟩] (by decide +kernel),
    .escaped '0' (by decide +kernel)]
  bare := by decide +kernel
  zeros := by decide +kernel

/-- The literal is the first one of the script. -/
theorem exists_first (source : String) (h : (Document.ofString none source).toOption.map (fun d =>
    (d.places.find? (·.node.kind == .string)).map (d.wording ·.node)) = some (some l.written)) :
    ∃ (d : Document) (p : Place), Document.ofString none source = .ok d ∧ d.Legible ∧ p.Within d.root ∧
      p.node.kind = .string ∧ d.wording p.node = l.written := by
  obtain ⟨d, hd, hfirst⟩ := exists_of_toOption_map h
  obtain ⟨p, hp, hwritten⟩ := Option.map_eq_some_iff.mp hfirst
  have hstring := List.find?_some hp
  exact ⟨d, p, hd, Document.legible_ofString hd, Document.within_of_mem_places (List.mem_of_find?_eq_some hp),
    eq_of_beq hstring, hwritten⟩

theorem literalValue?_eq_text_iff_mixed : ∃ d p, Document.ofString none (mixed.written ++ ";") = .ok d ∧
    d.Legible ∧ p.Within d.root ∧ p.node.kind = .string ∧ d.wording p.node = mixed.written ∧
      (d.handle p).literalValue? d = .ok (some mixed.text) ∧ mixed.text = Text.ofString "é\nMJ😀\x00" := by
  obtain ⟨d, p, hd, hlegible, hp, hstring, hwritten⟩ :=
    exists_first (l := mixed) (mixed.written ++ ";") (by decide +kernel)
  refine ⟨d, p, hd, hlegible, hp, hstring, hwritten, ?_, by decide +kernel⟩
  refine (literalValue?_eq_text_iff hlegible hp hstring hwritten).2.mpr ⟨fun b hb => ?_, ?_⟩
  · have hall : ∀ q ∈ mixed.pieces, q = .continued .lineFeed ∨ q.codePoint?.isSome = true := by decide +kernel
    rcases hall _ hb with h | h
    · exact Piece.continued.inj h
    · cases h
  · unfold Unpaired
    decide +kernel

/-- A line that is continued behind a carriage return. -/
def continuedLine : Literal where
  quote := '\''
  quoted := .inl rfl
  pieces := [.plain 'a' (by decide +kernel), .continued .carriageReturn, .plain 'b' (by decide +kernel)]
  bare := by decide +kernel
  zeros := by decide +kernel

/-- The carriage return behind which a line is continued is left in the value. -/
theorem carriage_return_kept : ∃ d p, Document.ofString none (continuedLine.written ++ ";") = .ok d ∧
    p.Within d.root ∧ p.node.kind = .string ∧ d.wording p.node = continuedLine.written ∧
      continuedLine.text = Text.ofString "ab" ∧
        (d.handle p).literalValue? d = .ok (some (Text.ofString "a\rb")) := by
  obtain ⟨d, p, hd, hlegible, hp, hstring, hwritten⟩ :=
    exists_first (l := continuedLine) (continuedLine.written ++ ";") (by decide +kernel)
  exact ⟨d, p, hd, hp, hstring, hwritten, by decide +kernel, literalValue?_written hlegible hp hstring hwritten⟩

end Literal

end TestMigration.Quoted
