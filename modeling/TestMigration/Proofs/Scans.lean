import TestMigration.Proofs.Cuts

/-! Scans of literals, comments and markup. Each sets out from a cut, and the offset that it comes to is
a cut, as are the ends of the parts that it finds on the way. -/

namespace TestMigration.Script

namespace Input

variable {source : String} {i : Input} {p q : Nat} (hi : i.bytes = source.toUTF8)

include hi

/-! ## Escapes, templates and regular expressions -/

/-- `p` is the offset of the backslash. -/
theorem cut_escapeStop? (hp : Cut source (p + 1)) (h : i.escapeStop? p = some q) :
    Cut source q := by
  unfold escapeStop? at h
  split at h
  · cases h
  rename_i c w hc
  have hbody := cut_narrow hi hp hc
  extract_lets hex octal at h
  by_cases hx : (c == 'x') = true
  · rw [if_pos hx] at h
    obtain rfl : c = 'x' := eq_of_beq hx
    split at h
    · rename_i hdigits
      cases h
      exact cut_within hi narrow_of_isHexDigit (hbody (by decide)) (by omega) hdigits
    · cases h
  rw [if_neg hx] at h
  by_cases hu : (c == 'u') = true
  · rw [if_pos hu] at h
    obtain rfl : c = 'u' := eq_of_beq hu
    have hbody := hbody (by decide)
    split at h
    · rename_i hbrace
      split at h
      · rename_i hclosed
        cases h
        exact cut_is hi (cut_skip hi _ (cut_is hi hbody hbrace (by decide)))
          (Bool.and_eq_true_iff.mp hclosed).2 (by decide)
      · cases h
    · split at h
      · rename_i hdigits
        cases h
        exact cut_within hi narrow_of_isHexDigit hbody (by omega) hdigits
      · cases h
  rw [if_neg hu] at h
  have hoctal : ∀ {p}, Cut source p → octal p = true → Cut source (p + 1) := by
    intro p hp hd
    simp only [octal] at hd
    split at hd
    · rename_i d _ hc
      exact cut_narrow hi hp hc
        (narrow_of_le (by decide) (of_decide_eq_true (Bool.and_eq_true_iff.mp hd).2))
    · cases hd
  split at h
  · rename_i hfirst
    have hsecond := hoctal hp hfirst
    cases h
    split
    · rename_i hd
      have hthird := hoctal hsecond hd
      split
      · rename_i hd'
        exact hoctal hthird hd'
      · exact hthird
    · exact hsecond
  split at h
  · rename_i hbreak
    have hnext : Cut source (p + 2) := by
      rcases Bool.or_eq_true_iff.mp hbreak with hbreak | hbreak
      · rw [eq_of_beq hbreak] at hbody
        exact hbody (by decide)
      · rw [eq_of_beq hbreak] at hbody
        exact hbody (by decide)
    split at h
    · rename_i d v hd
      split at h
      · cases h
        exact cut_char hi hnext hd
      · cases h
        exact hnext
    · cases h
      exact hnext
  · cases h
    exact cut_char hi hp hc

theorem cut_templateTextStop (fuel : Nat) (hp : Cut source p) :
    Cut source (i.templateTextStop fuel p) := by
  induction fuel generalizing p with
  | zero => exact hp
  | succ fuel ih =>
    unfold templateTextStop
    split
    · exact hp
    · rename_i c w hc
      split
      · exact hp
      · split
        · exact hp
        · exact ih (cut_char hi hp hc)

/-- A template's text that ends at a dollar sign ends before a substitution. -/
theorem cut_substitution {fuel : Nat} (hfuel : i.bytes.size < p + fuel) (hp : Cut source p)
    (h : i.is (i.templateTextStop fuel p) '$' = true) :
    Cut source (i.templateTextStop fuel p + 2) := by
  induction fuel generalizing p with
  | zero =>
    have hle := hp.le_size
    rw [← hi] at hle
    omega
  | succ fuel ih =>
    unfold templateTextStop at h ⊢
    split at h
    · rename_i hnone
      unfold is at h
      rw [hnone] at h
      cases h
    · rename_i c w hc
      by_cases hend : (c == '\x60' || c == '\\') = true
      · rw [if_pos hend] at h
        unfold is at h
        rw [hc] at h
        obtain rfl : c = '$' := eq_of_beq h
        exact absurd hend (by decide)
      · rw [if_neg hend] at h ⊢
        by_cases hopen : (c == '$' && i.is (p + 1) '\x7b') = true
        · rw [if_pos hopen]
          obtain ⟨hmark, hopen⟩ := Bool.and_eq_true_iff.mp hopen
          obtain rfl : c = '$' := eq_of_beq hmark
          exact cut_is hi (cut_narrow hi hp hc (by decide)) hopen (by decide)
        · rw [if_neg hopen] at h ⊢
          have hw := c.utf8Size_pos
          have hwidth := (char?_whole hi hp hc).1
          exact ih (by omega) (cut_char hi hp hc) h

theorem cut_regexClassStop? {fuel : Nat} (hp : Cut source p)
    (h : i.regexClassStop? fuel p = some q) : Cut source q := by
  induction fuel generalizing p with
  | zero => cases h
  | succ fuel ih =>
    unfold regexClassStop? at h
    split at h
    · cases h
    rename_i c w hc
    by_cases hend : (c == ']') = true
    · rw [if_pos hend] at h
      obtain rfl : c = ']' := eq_of_beq hend
      cases h
      exact cut_narrow hi hp hc (by decide)
    rw [if_neg hend] at h
    split at h
    · cases h
    by_cases hslash : (c == '\\') = true
    · rw [if_pos hslash] at h
      obtain rfl : c = '\\' := eq_of_beq hslash
      split at h
      · rename_i d v hd
        split at h
        · cases h
        · exact ih (cut_char hi (cut_narrow hi hp hc (by decide)) hd) h
      · cases h
    · rw [if_neg hslash] at h
      exact ih (cut_char hi hp hc) h

/-- A regular expression ends at a slash, between two cuts. -/
theorem cut_regexBodyStop? {fuel : Nat} (hp : Cut source p)
    (h : i.regexBodyStop? fuel p = some q) : Cut source q ∧ Cut source (q + 1) := by
  induction fuel generalizing p with
  | zero => cases h
  | succ fuel ih =>
    unfold regexBodyStop? at h
    split at h
    · cases h
    rename_i c w hc
    have hnext := cut_narrow hi hp hc
    by_cases hend : (c == '/') = true
    · rw [if_pos hend] at h
      obtain rfl : c = '/' := eq_of_beq hend
      cases h
      exact ⟨hp, hnext (by decide)⟩
    rw [if_neg hend] at h
    split at h
    · cases h
    by_cases hclass : (c == '[') = true
    · rw [if_pos hclass] at h
      obtain rfl : c = '[' := eq_of_beq hclass
      split at h
      · rename_i hstop
        exact ih (cut_regexClassStop? hi (hnext (by decide)) hstop) h
      · cases h
    rw [if_neg hclass] at h
    by_cases hslash : (c == '\\') = true
    · rw [if_pos hslash] at h
      obtain rfl : c = '\\' := eq_of_beq hslash
      split at h
      · rename_i d v hd
        split at h
        · cases h
        · exact ih (cut_char hi (hnext (by decide)) hd) h
      · cases h
    · rw [if_neg hslash] at h
      exact ih (cut_char hi hp hc) h

/-! ## Operators -/

omit hi in
/-- A text that begins with another stands where that stands. -/
theorem holdsBytes_append {bs : List UInt8} (rest : List UInt8)
    (h : i.holdsBytes (bs ++ rest) p = true) : i.holdsBytes bs p = true := by
  induction bs generalizing p with
  | nil => rfl
  | cons b bs ih =>
    simp only [List.cons_append, holdsBytes, Bool.and_eq_true] at h ⊢
    exact ⟨h.1, ih h.2⟩

omit hi in
theorem holdsAt_of_operator? {text : String} (h : i.operator? p = some text) :
    i.holdsAt p text = true := by
  have hfound : ∀ {text}, (if i.startsOperator p then operators.find? (i.holdsAt p) else none) =
      some text → i.holdsAt p text = true := by
    intro text hfind
    rw [Option.ite_none_right_eq_some] at hfind
    exact List.find?_some hfind.2
  unfold operator? at h
  split at h
  · rename_i hmark
    have hmark := hfound hmark
    have hquestion : i.holdsAt p "?" = true := holdsBytes_append [46] hmark
    split at h
    · split at h
      · cases h
        exact hquestion
      · cases h
        exact hmark
    · cases h
      exact hmark
  · exact hfound h

/-! ## Blanks, comments and quoted text -/

/-- The offset is a cut and so are those of the nodes. -/
def PartsOnCuts (source : String) (r : Nat × List Node) : Prop :=
  Cut source r.1 ∧ ∀ n ∈ r.2, n.OnCuts source

theorem onCuts_passTrivia {fuel : Nat} {comments : List Node} (hp : Cut source p)
    (hcomments : ∀ n ∈ comments, n.OnCuts source) :
    PartsOnCuts source (i.passTrivia fuel p comments) := by
  induction fuel generalizing p comments with
  | zero => exact ⟨hp, hcomments⟩
  | succ fuel ih =>
    unfold passTrivia
    split
    · exact ⟨hp, hcomments⟩
    rename_i c w hc
    split
    · exact ih (cut_char hi hp hc) hcomments
    split
    · split
      · rename_i stop hstop
        have hstop := cut_commentStop? hi hp hstop
        exact ih hstop (List.forall_mem_cons.mpr ⟨Node.onCuts_leaf hp hstop, hcomments⟩)
      · exact ⟨hp, hcomments⟩
    · exact ⟨hp, hcomments⟩

theorem onCuts_automaticEnd? {afterExpression : Bool} {fuel base : Nat} {comments : List Node}
    {r : Nat × List Node} (hbase : Cut source base) (hp : Cut source p)
    (hcomments : ∀ n ∈ comments, n.OnCuts source)
    (h : i.automaticEnd? afterExpression fuel base p comments = some r) :
    PartsOnCuts source r := by
  induction fuel generalizing base p comments with
  | zero => cases h
  | succ fuel ih =>
    have hend : ∀ {r' : Option (Nat × List Node)}, r' = some (base, comments) ∨ r' = none →
        r' = some r → PartsOnCuts source r := by
      intro r' hr' heq
      rcases hr' with rfl | rfl
      · cases heq
        exact ⟨hbase, hcomments⟩
      · cases heq
    unfold automaticEnd? at h
    split at h
    · exact hend (.inl rfl) h
    rename_i c w hc
    split at h
    · refine hend ?_ h
      split
      · exact .inr rfl
      · exact .inl rfl
    split at h
    · refine hend ?_ h
      split
      · split
        · exact .inl rfl
        · exact .inr rfl
      · exact .inr rfl
    split at h
    · exact ih hbase (cut_char hi hp hc) hcomments h
    split at h
    · rename_i stop hstop
      have hstop := cut_commentStop? hi hp hstop
      exact ih hstop hstop (List.forall_mem_cons.mpr ⟨Node.onCuts_leaf hp hstop, hcomments⟩) h
    · cases h

omit hi in
/-- A fragment that is put before parts on cuts, unless it is empty. -/
theorem onCuts_fragment {start stop : Nat} {parts : List Node} (hstart : Cut source start)
    (hstop : Cut source stop) (hparts : ∀ n ∈ parts, n.OnCuts source) :
    ∀ n ∈ if start < stop then .mk none .stringFragment start stop [] :: parts else parts,
      n.OnCuts source := by
  split
  · exact List.forall_mem_cons.mpr ⟨Node.onCuts_leaf hstart hstop, hparts⟩
  · exact hparts

theorem onCuts_quotedParts? {quote : Char} (hquote : Narrow quote) {fuel begun : Nat}
    {parts : List Node} {r : List Node × Nat} (hbegun : Cut source begun) (hp : Cut source p)
    (hparts : ∀ n ∈ parts, n.OnCuts source)
    (h : i.quotedParts? quote fuel begun p parts = some r) : PartsOnCuts source r.swap := by
  induction fuel generalizing begun p parts with
  | zero => cases h
  | succ fuel ih =>
    have hflushed := onCuts_fragment hbegun hp hparts
    unfold quotedParts? at h
    split at h
    · cases h
    rename_i c w hc
    by_cases hend : (c == quote) = true
    · rw [if_pos hend] at h
      obtain rfl : c = quote := eq_of_beq hend
      cases h
      exact ⟨cut_narrow hi hp hc hquote, fun n hn => hflushed n (List.mem_reverse.mp hn)⟩
    rw [if_neg hend] at h
    by_cases hslash : (c == '\\') = true
    · rw [if_pos hslash] at h
      obtain rfl : c = '\\' := eq_of_beq hslash
      split at h
      · rename_i stop hstop
        have hstop := cut_escapeStop? hi (cut_narrow hi hp hc (by decide)) hstop
        exact ih hstop hstop (List.forall_mem_cons.mpr ⟨Node.onCuts_leaf hp hstop, hflushed⟩) h
      · cases h
    rw [if_neg hslash] at h
    split at h
    · cases h
    · exact ih hbegun (cut_char hi hp hc) hparts h

/-! ## Markup -/

theorem cut_markupText {fuel : Nat} {atBreak seen : Bool} (hp : Cut source p) :
    Cut source (i.markupText fuel p atBreak seen).1 := by
  induction fuel generalizing p atBreak seen with
  | zero => exact hp
  | succ fuel ih =>
    unfold markupText
    split
    · exact hp
    · rename_i c w hc
      split
      · exact hp
      · split
        · exact ih (cut_char hi hp hc)
        · exact ih (cut_char hi hp hc)

theorem cut_characterReferenceStop? (hp : Cut source p)
    (h : i.characterReferenceStop? p = some q) : Cut source q := by
  have hending : ∀ {start most stop : Nat}, Cut source stop →
      (if start < stop && stop ≤ start + most && i.is stop ';' then some (stop + 1) else none) =
        some q → Cut source q := by
    intro start most stop hstop hq
    rw [Option.ite_none_right_eq_some] at hq
    obtain ⟨hend, hq⟩ := hq
    cases hq
    exact cut_is hi hstop (Bool.and_eq_true_iff.mp hend).2 (by decide)
  unfold characterReferenceStop? at h
  dsimp only at h
  split at h
  · cases h
  rename_i hmark
  have hbody := cut_is hi hp (c := '&') (by simpa using hmark) (by decide)
  split at h
  · rename_i hnumber
    have hnumber := cut_is hi hbody hnumber (by decide)
    split at h
    · rename_i hx
      have hhex : Cut source (p + 3) := by
        rcases Bool.or_eq_true_iff.mp hx with hx | hx
        · exact cut_is hi hnumber hx (by decide)
        · exact cut_is hi hnumber hx (by decide)
      exact hending (cut_skip hi _ hhex) h
    · exact hending (cut_skip hi _ hnumber) h
  · exact hending (cut_skip hi _ hbody) h

theorem onCuts_attributeParts? {quote : Char} (hquote : Narrow quote) {fuel begun : Nat}
    {parts : List Node} {r : List Node × Nat} (hbegun : Cut source begun) (hp : Cut source p)
    (hparts : ∀ n ∈ parts, n.OnCuts source)
    (h : i.attributeParts? quote fuel begun p parts = some r) : PartsOnCuts source r.swap := by
  induction fuel generalizing begun p parts with
  | zero => cases h
  | succ fuel ih =>
    have hflushed := onCuts_fragment hbegun hp hparts
    unfold attributeParts? at h
    dsimp only at h
    split at h
    · cases h
    rename_i c w hc
    by_cases hend : (c == quote) = true
    · rw [if_pos hend] at h
      obtain rfl : c = quote := eq_of_beq hend
      cases h
      exact ⟨cut_narrow hi hp hc hquote, fun n hn => hflushed n (List.mem_reverse.mp hn)⟩
    rw [if_neg hend] at h
    by_cases hmark : (c == '&') = true
    · rw [if_pos hmark] at h
      obtain rfl : c = '&' := eq_of_beq hmark
      split at h
      · rename_i stop hstop
        have hstop := cut_characterReferenceStop? hi hp hstop
        exact ih hstop hstop (List.forall_mem_cons.mpr ⟨Node.onCuts_leaf hp hstop, hflushed⟩) h
      · split at h
        · rename_i d v hd
          split at h
          · cases h
          · exact ih hbegun (cut_char hi (cut_narrow hi hp hc (by decide)) hd) hparts h
        · cases h
    rw [if_neg hmark] at h
    exact ih hbegun (cut_char hi hp hc) hparts h

theorem cut_markupNameStop? (hp : Cut source p) (h : i.markupNameStop? p = some q) :
    Cut source q := by
  unfold markupNameStop? at h
  rcases some_of_orElse h with h | h
  · rw [Option.ite_none_right_eq_some] at h
    obtain ⟨-, h⟩ := h
    cases h
    exact cut_skip hi _ (cut_skip hi _ hp)
  · exact cut_wordStop? hi hp h

end Input

end TestMigration.Script
