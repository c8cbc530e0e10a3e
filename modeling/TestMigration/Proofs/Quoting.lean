import TestMigration.Proofs.PageQueries

/-! Literals that are written and read again. Whatever text is put between quotes, with the quote of a
literal that was there before or with a double one, is the value of the new literal. -/

namespace TestMigration

/-- What can be written out is the text of a string. -/
theorem Text.eq_ofString {t : Text} {s : String} (h : t.toString? = some s) : t = Text.ofString s := by
  have hchars : ∀ (t : Text) (cs : List Char), t.mapM Glyph.toChar? = some cs → t = cs.map .char := by
    intro t
    induction t with
    | nil =>
      intro cs h
      cases h
      rfl
    | cons g t ih =>
      intro cs h
      rw [List.mapM_cons] at h
      obtain ⟨c, hc, h⟩ := Option.bind_eq_some_iff.mp h
      obtain ⟨rest, hrest, h⟩ := Option.bind_eq_some_iff.mp h
      cases h
      cases g with
      | char c' =>
        cases hc
        rw [ih rest hrest]
        rfl
      | lone n => cases hc
  obtain ⟨cs, hcs, rfl⟩ := Option.map_eq_some_iff.mp h
  rw [hchars t cs hcs, Text.ofString, String.toList_ofList]

namespace Quoted

variable {c e : Char} {written : List Char}

/-! ## One character -/

/-- What is written for a character is read as that character, and reading goes on behind it. -/
def Stands (written : List Char) (c : Char) : Prop :=
  ∀ fuel rest, decodeWithin (fuel + 1) (written ++ rest) =
    do return Glyph.char c :: (← decodeWithin fuel rest)

theorem Stands.ne_nil (h : Stands written c) : written ≠ [] := by
  rintro rfl
  cases h 0 []

theorem stands_self (h : c ≠ '\\') : Stands [c] c := by
  intro fuel rest
  rw [List.singleton_append, decodeWithin]
  · exact fun hc => absurd hc h
  · exact fun _ _ hc => absurd hc h

theorem numericEscape?_none (hu : c ≠ 'u') (hx : c ≠ 'x') (rest : List Char) :
    numericEscape? (c :: rest) = none := by
  unfold numericEscape?
  split <;> simp_all

/-- A backslash before a character that begins no escape of a code point. -/
theorem stands_escaped (hu : c ≠ 'u') (hx : c ≠ 'x') (he : simpleEscape c = [.char e]) :
    Stands ['\\', c] e := by
  intro fuel rest
  change decodeWithin (fuel + 1) ('\\' :: c :: rest) = _
  rw [decodeWithin, numericEscape?_none hu hx, he]
  rfl

/-- The escape of a control character gives its code point in hexadecimal digits. -/
theorem stands_control (h : c < ' ') :
    Stands ['\\', 'u', '0', '0', hexDigit (c.toNat / 16), hexDigit (c.toNat % 16)] c := by
  intro fuel rest
  have hdigits : ∀ n < 32, hexNumber? ['0', '0', hexDigit (n / 16), hexDigit (n % 16)] = some n := by
    decide
  have hcode : numericEscape? ('u' :: '0' :: '0' :: hexDigit (c.toNat / 16) :: hexDigit (c.toNat % 16) :: rest) =
      some (c.toNat, 5) := by
    change (hexNumber? _).map _ = _
    rw [hdigits c.toNat h]
    rfl
  have hglyph : Glyph.ofCodePoint? c.toNat = some (.char c) := by
    have hvalid : c.toNat.isValidChar := c.valid
    unfold Glyph.ofCodePoint?
    rw [dif_pos hvalid]
    rfl
  change decodeWithin (fuel + 1) ('\\' :: 'u' :: '0' :: '0' :: hexDigit (c.toNat / 16) ::
    hexDigit (c.toNat % 16) :: rest) = _
  rw [decodeWithin, hcode]
  dsimp only
  rw [hglyph]
  rfl

theorem stands_escapeChar (c : Char) : Stands (escapeChar c) c := by
  unfold escapeChar
  split
  · exact stands_escaped (by decide) (by decide) rfl
  · exact stands_escaped (by decide) (by decide) rfl
  · exact stands_escaped (by decide) (by decide) rfl
  · exact stands_escaped (by decide) (by decide) rfl
  · exact stands_escaped (by decide) (by decide) rfl
  · exact stands_escaped (by decide) (by decide) rfl
  · exact stands_escaped (by decide) (by decide) rfl
  · split
    · rename_i h
      exact stands_control h
    · exact stands_self (by assumption)

/-! ## Literals -/

theorem decodeWithin_flatMap {write : Char → List Char} (h : ∀ c, Stands (write c) c) (cs : List Char)
    {fuel : Nat} (hfuel : (cs.flatMap write).length ≤ fuel) :
    decodeWithin fuel (cs.flatMap write) = .ok (cs.map .char) := by
  induction cs generalizing fuel with
  | nil => cases fuel <;> rfl
  | cons c cs ih =>
    have hlong := List.length_pos_iff_ne_nil.mpr (h c).ne_nil
    rw [List.flatMap_cons, List.length_append] at hfuel
    obtain ⟨fuel, rfl⟩ : ∃ n, fuel = n + 1 := ⟨fuel - 1, by omega⟩
    rw [List.flatMap_cons, h c, ih (by omega)]
    rfl

/-- Between quotes. -/
theorem decode_between {write : Char → List Char} (h : ∀ c, Stands (write c) c) (cs : List Char)
    (quote : Char) :
    decode ((quote :: cs.flatMap write ++ [quote]).drop 1).dropLast = .ok (cs.map .char) := by
  change decode (cs.flatMap write ++ [quote]).dropLast = _
  rw [List.dropLast_concat]
  exact decodeWithin_flatMap h cs (Nat.le_refl _)

/-- How a character is written between single or double quotes. -/
def escapeFor (quote c : Char) : List Char := if c == '\\' || c == quote then ['\\', c] else [c]

theorem stands_escapeFor {quote : Char} (hquote : quote = '\'' ∨ quote = '"') (c : Char) :
    Stands (escapeFor quote c) c := by
  unfold escapeFor
  split
  · rename_i h
    rcases Bool.or_eq_true_iff.mp h with h | h
    · obtain rfl := beq_iff_eq.mp h
      exact stands_escaped (by decide) (by decide) rfl
    · obtain rfl := beq_iff_eq.mp h
      rcases hquote with rfl | rfl
      · exact stands_escaped (by decide) (by decide) rfl
      · exact stands_escaped (by decide) (by decide) rfl
  · rename_i h
    exact stands_self fun hc => h (by rw [hc]; rfl)

theorem between_ofString {write : Char → List Char} {escape : Glyph → Text} (quote : Char)
    (h : ∀ c, escape (.char c) = (write c).map .char) (s : String) :
    Glyph.char quote :: (Text.ofString s).flatMap escape ++ [.char quote] =
      Text.ofString (String.ofList (quote :: s.toList.flatMap write ++ [quote])) := by
  have hbody : (Text.ofString s).flatMap escape = (s.toList.flatMap write).map .char := by
    unfold Text.ofString
    rw [List.flatMap_map, List.map_flatMap]
    exact List.flatMap_congr fun c _ => h c
  rw [hbody]
  unfold Text.ofString
  rw [String.toList_ofList, List.map_append, List.map_cons]
  rfl

/-- The literal that is written for a text without lone surrogates stands between quotes. -/
theorem requote_cases (existing s : String) : ∃ quote, ∃ write : Char → List Char,
    (quote = '\'' ∨ quote = '"') ∧ (∀ c, Stands (write c) c) ∧
      requote existing (Text.ofString s) =
        Text.ofString (String.ofList (quote :: s.toList.flatMap write ++ [quote])) := by
  have hencode : ∃ quote, ∃ write : Char → List Char, (quote = '\'' ∨ quote = '"') ∧
      (∀ c, Stands (write c) c) ∧ encode (Text.ofString s) =
        Text.ofString (String.ofList (quote :: s.toList.flatMap write ++ [quote])) :=
    ⟨'"', escapeChar, .inr rfl, stands_escapeChar, between_ofString '"' (fun _ => rfl) s⟩
  unfold requote
  split
  · rename_i quote _ _
    split
    · rename_i hquote
      have hquote : quote = '\'' ∨ quote = '"' := by simpa using hquote
      refine ⟨quote, escapeFor quote, hquote, stands_escapeFor hquote, between_ofString quote (fun c => ?_) s⟩
      unfold escapeFor
      dsimp only
      split <;> rfl
    · exact hencode
  · exact hencode

/-- A quote begins the new literal. -/
theorem head_requote (existing : String) (t : Text) :
    (requote existing t).head? = some (.char '\'') ∨ (requote existing t).head? = some (.char '"') := by
  unfold requote
  split
  · split
    · rename_i hquote
      rcases Bool.or_eq_true_iff.mp hquote with hquote | hquote
      · exact .inl (congrArg (some ∘ Glyph.char) (beq_iff_eq.mp hquote))
      · exact .inr (congrArg (some ∘ Glyph.char) (beq_iff_eq.mp hquote))
    · exact .inr rfl
  · exact .inr rfl

/-- Where the new literal can be written out, so can the text. -/
theorem whole_of_requote {existing : String} {t : Text} (h : (requote existing t).Whole) : t.Whole := by
  intro g hg
  cases g with
  | char c => rfl
  | lone n =>
    refine h _ ?_
    have hencode : Glyph.lone n ∈ encode t :=
      List.mem_cons_of_mem _ (List.mem_append_left _ (List.mem_flatMap.mpr ⟨_, hg, List.mem_singleton.mpr rfl⟩))
    unfold requote
    split
    · split
      · exact List.mem_cons_of_mem _
          (List.mem_append_left _ (List.mem_flatMap.mpr ⟨_, hg, List.mem_singleton.mpr rfl⟩))
      · exact hencode
    · exact hencode

/-- The value of a new literal that can be written out is the text that it was written for. -/
theorem decode_requote {existing : String} {t : Text} (h : (requote existing t).toString?.isSome = true) :
    decode ((requote existing t).shown.toList.drop 1).dropLast = .ok t := by
  obtain ⟨literal, hliteral⟩ := Option.isSome_iff_exists.mp h
  have hwhole : t.Whole := whole_of_requote (Text.eq_ofString hliteral ▸ Text.whole_ofString)
  obtain ⟨quote, write, -, hstands, hwritten⟩ := requote_cases existing t.shown
  have hvalue := decode_between hstands t.shown.toList quote
  rw [hwhole.ofString_shown] at hwritten
  rw [hwritten, Text.shown_ofString, String.toList_ofList, hvalue]
  exact congrArg _ hwhole.ofString_shown

end Quoted

end TestMigration
