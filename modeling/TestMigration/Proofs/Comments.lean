import TestMigration.Proofs.Assertions
import TestMigration.Proofs.Quoting

/-! Comments that are put above statements. What a comment says depends on the spelling of a call alone; it
is folded onto one line, begins with the marker and ends with something that can be seen. So it can be
told apart from the line that it is on. -/

namespace TestMigration

open Script (Node Kind Field Place)

/-! ## Folded texts -/

namespace Blank

variable {α : Type} {test : α → Bool} {b x : α} {w xs : List α} {ws : List (List α)}

/-- The words of a text have something in them, and no blank. -/
def Words (test : α → Bool) (ws : List (List α)) : Prop := ∀ w ∈ ws, w ≠ [] ∧ ∀ x ∈ w, test x = false

theorem wordsBy_cons (x : α) (rest : List α) : wordsBy test (x :: rest) =
    if test x then wordsBy test rest
    else match rest with
      | [] => [[x]]
      | y :: _ =>
        if test y then [x] :: wordsBy test rest
        else match wordsBy test rest with
          | [] => [[x]]
          | word :: words => (x :: word) :: words := wordsBy.eq_def test (x :: rest)

theorem words_wordsBy (test : α → Bool) (xs : List α) : Words test (wordsBy test xs) := by
  induction xs with
  | nil => exact List.forall_mem_nil _
  | cons x rest ih =>
    have hone : test x = false → [x] ≠ [] ∧ ∀ y ∈ [x], test y = false := fun hx =>
      ⟨List.cons_ne_nil _ _, List.forall_mem_singleton.mpr hx⟩
    rw [wordsBy_cons]
    split
    · exact ih
    · rename_i hx
      have hx := Bool.not_eq_true _ ▸ hx
      split
      · exact List.forall_mem_singleton.mpr (hone hx)
      · split
        · exact List.forall_mem_cons.mpr ⟨hone hx, ih⟩
        · split
          · exact List.forall_mem_singleton.mpr (hone hx)
          · rename_i word words hwords
            rw [hwords] at ih
            obtain ⟨⟨-, hword⟩, hrest⟩ := List.forall_mem_cons.mp ih
            exact List.forall_mem_cons.mpr
              ⟨⟨List.cons_ne_nil _ _, List.forall_mem_cons.mpr ⟨hx, hword⟩⟩, hrest⟩

/-- A word that a blank ends is the first of the words. -/
theorem wordsBy_word (hne : w ≠ []) (hw : ∀ x ∈ w, test x = false) (hb : test b = true) (xs : List α) :
    wordsBy test (w ++ b :: xs) = w :: wordsBy test xs := by
  have hblank : wordsBy test (b :: xs) = wordsBy test xs := by
    rw [wordsBy_cons, if_pos hb]
  induction w with
  | nil => exact absurd rfl hne
  | cons x w ih =>
    obtain ⟨hx, hw⟩ := List.forall_mem_cons.mp hw
    have hx : ¬ test x = true := by
      rw [hx]
      exact Bool.false_ne_true
    cases w with
    | nil =>
      rw [List.cons_append, List.nil_append, wordsBy_cons, if_neg hx]
      dsimp only
      rw [if_pos hb, hblank]
    | cons y w =>
      have hy : ¬ test y = true := by
        rw [hw y List.mem_cons_self]
        exact Bool.false_ne_true
      rw [List.cons_append, wordsBy_cons, if_neg hx]
      change (if test y then _ else match wordsBy test ((y :: w) ++ b :: xs) with
        | [] => [[x]]
        | word :: words => (x :: word) :: words) = _
      rw [if_neg hy, ih (List.cons_ne_nil _ _) hw]

theorem dropWhile_of_head (h : ∀ x ∈ xs.head?, test x = false) : xs.dropWhile test = xs := by
  cases xs with
  | nil => rfl
  | cons x xs => exact List.dropWhile_cons_of_neg (by rw [h x rfl]; exact Bool.false_ne_true)

theorem trimBy_eq_self (hfirst : ∀ x ∈ xs.head?, test x = false) (hlast : ∀ x ∈ xs.getLast?, test x = false) :
    trimBy test xs = xs := by
  unfold trimBy
  rw [dropWhile_of_head hfirst, dropWhile_of_head (by rwa [List.head?_reverse]), List.reverse_reverse]

/-- Of words with a separator between them neither end is a blank, and no blank is in them but those of the
separator. -/
theorem intercalate_words (hws : Words test ws) (separator : α) :
    (∀ x ∈ (List.intercalate [separator] ws).head?, test x = false) ∧
    (∀ x ∈ (List.intercalate [separator] ws).getLast?, test x = false) ∧
    ∀ x ∈ List.intercalate [separator] ws, test x = true → x = separator := by
  induction ws with
  | nil => exact ⟨nofun, nofun, nofun⟩
  | cons w ws ih =>
    obtain ⟨⟨hne, hw⟩, hws⟩ := List.forall_mem_cons.mp hws
    have hhead : ∀ x ∈ w.head?, test x = false := fun x hx => hw x (List.mem_of_mem_head? hx)
    have hlast : ∀ x ∈ w.getLast?, test x = false := fun x hx => hw x (List.mem_of_mem_getLast? hx)
    cases ws with
    | nil =>
      rw [List.intercalate_singleton]
      exact ⟨hhead, hlast, fun x hx hblank => absurd hblank (by rw [hw x hx]; exact Bool.false_ne_true)⟩
    | cons w' ws =>
      obtain ⟨-, htail, hall⟩ := ih hws
      rw [List.intercalate_cons_cons, List.append_assoc]
      refine ⟨?_, ?_, ?_⟩
      · intro x hx
        rw [List.head?_append_of_ne_nil _ hne] at hx
        exact hhead x hx
      · intro x hx
        have hsome : List.intercalate [separator] (w' :: ws) ≠ [] := by
          obtain ⟨hne', -⟩ := hws w' List.mem_cons_self
          cases ws with
          | nil => exact fun hnil => hne' ((List.append_nil w').symm.trans hnil)
          | cons w'' ws =>
            rw [List.intercalate_cons_cons]
            simp [hne']
        rw [List.getLast?_append_of_ne_nil _ (List.append_ne_nil_of_right_ne_nil _ hsome),
          List.getLast?_append_of_ne_nil _ hsome] at hx
        exact htail x hx
      · intro x hx hblank
        rcases List.mem_append.mp hx with hx | hx
        · rw [hw x hx] at hblank
          cases hblank
        · rcases List.mem_append.mp hx with hx | hx
          · exact List.mem_singleton.mp hx
          · exact hall x hx hblank

end Blank

namespace Guidance

/-- A comment on one line: it begins with the marker, and no blanks are in it but spaces between words. -/
structure OneLine (s : String) : Prop where
  marked : marker.toList <+: s.toList
  spaces : ∀ c ∈ s.toList, isBlank c = true → c = ' '
  trimmed : Blank.trim s = s

variable {s : String} {t rest : Text}

theorem isBlank_of_isLineBreak {c : Char} (h : isLineBreak c = true) : isBlank c = true := by
  unfold isLineBreak at h
  unfold isBlank
  simp only [Bool.or_eq_true, Bool.and_eq_true, decide_eq_true_eq, beq_iff_eq] at h
  rcases h with (((⟨hfirst, hlast⟩ | ⟨hfirst, hlast⟩) | h) | h) | h
  · have hfirst : '\t' ≤ c := Char.le_trans (by decide) hfirst
    simp [hfirst, hlast]
  · have hlast : c ≤ ' ' := Char.le_trans hlast (by decide)
    simp [hfirst, hlast]
  · simp [h]
  · simp [h]
  · simp [h]

theorem OneLine.unbroken (h : OneLine s) : ∀ c ∈ s.toList, isLineBreak c = false := by
  intro c hc
  by_contra hbreak
  rw [h.spaces c hc (isBlank_of_isLineBreak (Bool.not_eq_false _ ▸ hbreak))] at hbreak
  exact hbreak (by decide)

theorem OneLine.startsWith (h : OneLine s) : s.startsWith "//" = true :=
  String.startsWith_string_iff.mpr (List.IsPrefix.trans (by decide) h.marked)

/-- A text that is folded with the marker in front of it. -/
def Marks (t : Text) : Prop := ∃ rest, t = Blank.fold (Text.ofString marker ++ .char ' ' :: rest)

/-- The words of the marker are the first ones. -/
theorem fold_marker (rest : Text) : Blank.fold (Text.ofString marker ++ .char ' ' :: rest) =
    Text.join [.char ' '] (.ofString "//" :: .ofString "Conversion" :: .ofString "suggestion:" ::
      Blank.wordsBy (Glyph.satisfies isBlank) rest) := by
  have hmarker : Text.ofString marker ++ .char ' ' :: rest = Text.ofString "//" ++ .char ' ' ::
      (Text.ofString "Conversion" ++ .char ' ' :: (Text.ofString "suggestion:" ++ .char ' ' :: rest)) := by
    change Text.ofString ("//" ++ " " ++ "Conversion" ++ " " ++ "suggestion:") ++ _ = _
    simp only [Text.ofString_append, List.append_assoc]
    rfl
  unfold Blank.fold
  rw [hmarker, Blank.wordsBy_word (by decide) (by decide) (by decide),
    Blank.wordsBy_word (by decide) (by decide) (by decide),
    Blank.wordsBy_word (by decide) (by decide) (by decide)]

/-- The marker comes before all other words. -/
theorem isPrefix_marker (words : List Text) : Text.ofString marker <+: Text.join [.char ' ']
    (.ofString "//" :: .ofString "Conversion" :: .ofString "suggestion:" :: words) := by
  have hmarker : Text.ofString marker = Text.join [.char ' ']
      [.ofString "//", .ofString "Conversion", .ofString "suggestion:"] := by decide
  cases words with
  | nil => exact ⟨[], by rw [hmarker, List.append_nil]⟩
  | cons word words =>
    refine ⟨.char ' ' :: Text.join [.char ' '] (word :: words), ?_⟩
    rw [hmarker]
    unfold Text.join
    simp only [List.intercalate_cons_cons, List.intercalate_singleton, List.append_assoc, List.cons_append,
      List.nil_append]

/-- A text that begins with the marker, in which no blanks are but spaces between words. -/
structure Folded (t : Text) : Prop where
  marked : Text.ofString marker <+: t
  spaces : ∀ g ∈ t, g.satisfies isBlank = true → g = .char ' '
  first : ∀ g ∈ t.head?, g.satisfies isBlank = false
  last : ∀ g ∈ t.getLast?, g.satisfies isBlank = false

theorem folded_of_marks (h : Marks t) : Folded t := by
  obtain ⟨rest, rfl⟩ := h
  obtain ⟨hfirst, hlast, hspaces⟩ := Blank.intercalate_words
    (Blank.words_wordsBy (Glyph.satisfies isBlank) (Text.ofString marker ++ .char ' ' :: rest)) (.char ' ')
  refine ⟨?_, hspaces, hfirst, hlast⟩
  rw [fold_marker]
  exact isPrefix_marker _

theorem Folded.ends (h : Folded (.ofString s)) :
    (∀ c ∈ s.toList.head?, isBlank c = false) ∧ ∀ c ∈ s.toList.getLast?, isBlank c = false := by
  refine ⟨fun c hc => h.first (.char c) ?_, fun c hc => h.last (.char c) ?_⟩
  · rw [Text.ofString, List.head?_map, hc]
    rfl
  · rw [Text.ofString, List.getLast?_map, hc]
    rfl

theorem oneLine_of_marks (h : Marks (.ofString s)) : OneLine s := by
  have hfolded := folded_of_marks h
  obtain ⟨hfirst, hlast⟩ := hfolded.ends
  obtain ⟨⟨more, hmore⟩, hspaces, -, -⟩ := hfolded
  refine ⟨?_, fun c hc hblank => ?_, ?_⟩
  · obtain ⟨first, last, hsplit, hfirst, -⟩ := List.map_eq_append_iff.mp hmore.symm
    refine ⟨last, ?_⟩
    rw [hsplit]
    congr 1
    exact (List.map_injective_iff.mpr (fun _ _ => Glyph.char.inj) hfirst).symm
  · exact Glyph.char.inj (hspaces _ (List.mem_map_of_mem hc) hblank)
  · unfold Blank.trim
    rw [Blank.trimBy_eq_self hfirst hlast, String.ofList_toList]

/-! ## What a comment says -/

theorem marks_onMethod (wrapper method : String) (argument : Option String) :
    Marks (onMethod wrapper method argument) := by
  unfold onMethod
  simp only [Text.ofString_append, List.append_assoc]
  exact ⟨_, rfl⟩

theorem marks_onSelector {argument attr : String} {selector : Option Text} {snapshot : Option Snapshot}
    (h : onSelector argument selector attr snapshot = .ok t) : Marks t := by
  have hfold : ∀ advice : Except Failure Text, (do
      let advice ← advice
      return Blank.fold (Text.ofString s!"{marker} .find({argument}) --> " ++ advice)) = .ok t → Marks t := by
    intro advice h
    cases advice with
    | error e => cases h
    | ok advice =>
      rw [← Except.ok.inj h]
      simp only [Text.ofString_append, List.append_assoc]
      exact ⟨_, rfl⟩
  cases selector with
  | none => exact hfold (.ok (Text.ofString anySelector)) h
  | some selector => exact hfold (ofSelector selector attr snapshot) h

/-- Whether there is a comment depends on the value of the argument, not on its spelling. -/
theorem onSelector_answers {argument argument' attr : String} {selector : Option Text} {snapshot : Option Snapshot}
    (h : onSelector argument selector attr snapshot = .ok t) :
    ∃ t', onSelector argument' selector attr snapshot = .ok t' := by
  cases selector with
  | none => exact ⟨_, rfl⟩
  | some selector =>
    unfold onSelector at h ⊢
    dsimp only at h ⊢
    cases hadvice : ofSelector selector attr snapshot with
    | error e =>
      rw [hadvice] at h
      cases h
    | ok advice => exact ⟨_, rfl⟩

theorem marks_onEvent (argument : String) : Marks (onEvent argument) := by
  unfold onEvent
  simp only [Text.ofString_append, List.append_assoc]
  exact ⟨_, rfl⟩

end Guidance

/-- The value of a literal that is spelt so; what is no literal has none. -/
def Handle.valueSpelt (kind : Kind) (word : String) : Except Failure (Option Text) :=
  if kind == .string then
    match Quoted.decode (word.toList.drop 1).dropLast with
    | .ok value => .ok (some value)
    | .error _ => .error (.of .badValue "chr() arg not in range(0x110000)")
  else .ok none

theorem Handle.valueSpelt_of_ne {kind : Kind} {word : String} (h : kind ≠ .string) :
    valueSpelt kind word = .ok none :=
  if_neg (mt beq_iff_eq.mp h)

namespace Document

/-- The comment on a call of a method of a wrapper. -/
def methodComment (d : Document) (wrapper : String) (p : Place) : Except Failure (Option Text) :=
  .ok <| ((d.method? p).filter (· != "find")).map fun method =>
    Guidance.onMethod wrapper method (p.callArguments.head?.map fun q => d.wording q.node)

/-- The comment on a call of `find`. -/
def findComment (d : Document) (attr : String) (snapshot : Option Snapshot) (p : Place) :
    Except Failure (Option Text) := do
  let selector ← p.callArguments.head?.elim (.ok none) fun q => Handle.valueSpelt q.node.kind (d.wording q.node)
  return some (← Guidance.onSelector (d.argumentText p) selector attr snapshot)

/-- The comment on a simulated event. -/
def eventComment (d : Document) (p : Place) : Except Failure (Option Text) :=
  .ok (some (Guidance.onEvent (d.argumentText p)))

variable {d : Document} {p : Place} {t : Text}

theorem marks_methodComment {wrapper : String} (h : d.methodComment wrapper p = .ok (some t)) :
    Guidance.Marks t := by
  obtain ⟨method, -, rfl⟩ := Option.map_eq_some_iff.mp (Except.ok.inj h)
  exact Guidance.marks_onMethod _ _ _

theorem exists_of_findComment {attr : String} {snapshot : Option Snapshot} {comment : Option Text}
    (h : d.findComment attr snapshot p = .ok comment) : ∃ selector t,
      p.callArguments.head?.elim (.ok none) (fun q => Handle.valueSpelt q.node.kind (d.wording q.node)) =
        .ok selector ∧
      Guidance.onSelector (d.argumentText p) selector attr snapshot = .ok t ∧ comment = some t := by
  unfold findComment at h
  generalize p.callArguments.head?.elim (.ok none) (fun q => Handle.valueSpelt q.node.kind (d.wording q.node)) =
    value at h
  cases value with
  | error e => cases h
  | ok selector =>
    change Except.bind (Guidance.onSelector (d.argumentText p) selector attr snapshot) _ = _ at h
    cases hcomment : Guidance.onSelector (d.argumentText p) selector attr snapshot with
    | error e =>
      rw [hcomment] at h
      cases h
    | ok t =>
      rw [hcomment] at h
      cases h
      exact ⟨selector, t, rfl, hcomment, rfl⟩

theorem marks_findComment {attr : String} {snapshot : Option Snapshot}
    (h : d.findComment attr snapshot p = .ok (some t)) : Guidance.Marks t := by
  obtain ⟨selector, comment, -, hcomment, hsome⟩ := exists_of_findComment h
  exact Option.some.inj hsome ▸ Guidance.marks_onSelector hcomment

theorem marks_eventComment (h : d.eventComment p = .ok (some t)) : Guidance.Marks t := by
  rw [← Option.some.inj (Except.ok.inj h)]
  exact Guidance.marks_onEvent _

end Document

section Looks

variable {d : Document} {p : Place}

theorem Handle.literalValue?_handle_spelt (hd : d.Legible) (hp : p.Within d.root) :
    (d.handle p).literalValue? d = Handle.valueSpelt p.node.kind (d.wording p.node) := by
  refine look_bind_eq Handle.kind_handle ?_
  unfold Handle.valueSpelt
  by_cases hkind : p.node.kind = Kind.string
  · rw [if_neg (by simp [hkind]), if_pos (by simp [hkind])]
    refine look_bind_eq (Handle.text_handle hd hp) ?_
    cases Quoted.decode ((d.wording p.node).toList.drop 1).dropLast <;> rfl
  · rw [if_pos (by simp [hkind]), if_neg (by simp [hkind])]
    rfl

namespace Suggestion

theorem onWrapper_handle (hd : d.Legible) (hp : p.Within d.root) (wrapper : String) :
    onWrapper wrapper (d.handle p) d = d.methodComment wrapper p := by
  have hargument : ((p.callArguments.head?.map d.handle).mapM (·.text) : Looking _) d =
      .ok (p.callArguments.head?.map fun q => d.wording q.node) := by
    cases hfirst : p.callArguments.head? with
    | none => rfl
    | some q =>
      change ((d.handle q).text >>= fun text => pure (some text)) d = _
      exact look_bind_eq (Handle.text_handle hd (hp.argument (List.mem_of_mem_head? hfirst))) rfl
  refine look_bind_eq (Assertion.methodName?_handle hd hp) ?_
  unfold Document.methodComment
  generalize d.method? p = name
  split
  · rfl
  · rfl
  · rename_i method hother
    rw [Option.filter_some, if_pos (bne_iff_ne.mpr hother)]
    exact look_bind_eq Handle.firstArgument?_handle (look_bind_eq hargument rfl)

theorem onFind_handle (hd : d.Legible) (hp : p.Within d.root) (attr : String) (snapshot : Option Snapshot) :
    onFind attr snapshot (d.handle p) d = d.findComment attr snapshot p := by
  have hvalue : Handle.valueOf? (p.callArguments.head?.map d.handle) d =
      p.callArguments.head?.elim (.ok none) fun q => Handle.valueSpelt q.node.kind (d.wording q.node) := by
    cases hfirst : p.callArguments.head? with
    | none => rfl
    | some q => exact Handle.literalValue?_handle_spelt hd (hp.argument (List.mem_of_mem_head? hfirst))
  refine look_bind_eq Handle.firstArgument?_handle ?_
  change Except.bind (Handle.valueOf? (p.callArguments.head?.map d.handle) d) _ = _
  rw [hvalue]
  unfold Document.findComment
  generalize p.callArguments.head?.elim (.ok none) (fun q => Handle.valueSpelt q.node.kind (d.wording q.node)) =
    selector
  cases selector with
  | error e => rfl
  | ok selector =>
    refine look_bind_eq (Assertion.argumentText_handle hd hp) ?_
    change Except.bind ((liftM (Guidance.onSelector (d.argumentText p) selector attr snapshot) : Looking Text) d)
      _ = Except.bind (Guidance.onSelector (d.argumentText p) selector attr snapshot) _
    cases Guidance.onSelector (d.argumentText p) selector attr snapshot <;> rfl

theorem onSimulate_handle (hd : d.Legible) (hp : p.Within d.root) :
    onSimulate (d.handle p) d = d.eventComment p :=
  look_bind_eq (Assertion.argumentText_handle hd hp) rfl

end Suggestion

end Looks

end TestMigration
