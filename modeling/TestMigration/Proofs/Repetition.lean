import TestMigration.Proofs.Settled

/-! Conversions of what a conversion yields. The text is a script again, and it is yielded unchanged
if and only if nothing is left to do in it, short of edits that come to nothing in the end. -/

namespace TestMigration

/-- The bytes of a text are read as that text. -/
theorem fromUTF8?_of_text (text : String) : String.fromUTF8? text.toUTF8 = some text := by
  unfold String.fromUTF8?
  split
  · rfl
  · rename_i hinvalid
    exact absurd text.isValidUTF8 hinvalid

namespace Conversion

theorem run_ok {o : ConversionOptions} {s s' : Session} {c : Conversion} :
    run o s = .ok c s' ↔ ∃ r, passes o s.document.path s = .ok r s' ∧
      s'.document.code = .ok c.code ∧ c = ⟨c.code, r.1.1, r.1.2, s'.findings, r.2⟩ := by
  have hrun : run o s = match passes o s.document.path s with
      | .ok r s₁ => finish r.1 r.2 s₁
      | .error e s₁ => .error e s₁ := by
    change EStateM.bind (passes o s.document.path) (fun r => finish r.1 r.2) s = _
    unfold EStateM.bind
    cases passes o s.document.path s <;> rfl
  have hfinish : ∀ bound statistics (s₁ : Session), finish bound statistics s₁ =
      match s₁.document.code with
      | .ok text => .ok ⟨text, bound.1, bound.2, s₁.findings, statistics⟩ s₁
      | .error e => .error e s₁ := by
    intro bound statistics s₁
    change EStateM.bind (Pass.lift (liftM s₁.document.code : Editing String)) (fun text =>
      (pure (⟨text, bound.1, bound.2, s₁.findings, statistics⟩ : Conversion) : Pass Conversion))
        s₁ = _
    cases s₁.document.code <;> rfl
  rw [hrun]
  cases passes o s.document.path s with
  | error e s₁ => simp
  | ok r s₁ =>
    dsimp only
    rw [hfinish]
    constructor
    · intro h
      cases hcode : s₁.document.code with
      | error e =>
        rw [hcode] at h
        cases h
      | ok text =>
        rw [hcode] at h
        cases h
        exact ⟨r, rfl, hcode, rfl⟩
    · intro hk
      obtain ⟨r', hr, hcode, hc⟩ := hk
      cases hr
      rw [hcode, hc]

theorem run_program {o : ConversionOptions} {s s' : Session} {c : Conversion}
    (h : run o s = .ok c s') : ∃ p : Program Conversion, p.after s.document = s'.document := by
  obtain ⟨p, hrun⟩ := (programmed_run o).run_ok h
  exact ⟨p, Program.after_of_ok hrun⟩

/-- A run that leaves the document as it was has found nothing to do. -/
theorem run_still_iff {o : ConversionOptions} {s : Session} {text : String}
    (h : s.document.batch = none) (hcode : s.document.code = .ok text) :
    (∃ c s', run o s = .ok c s' ∧ s'.document = s.document) ↔
      Settled o s.document.path s.document := by
  have hstays := fun r => (idles_passes o s.document.path).stays s r h
  constructor
  · intro hk
    obtain ⟨c, s', hrun, hd⟩ := hk
    obtain ⟨r, hr, -, -⟩ := run_ok.mp hrun
    exact ((hstays r).mp ⟨s', hr, hd⟩).1
  · intro hsettled
    obtain ⟨s', hr, hd⟩ := (hstays _).mpr ⟨hsettled, rfl⟩
    refine ⟨⟨text, none, [], s'.findings, nothingDone⟩, s', run_ok.mpr ⟨_, hr, ?_, rfl⟩, hd⟩
    rw [hd]
    exact hcode

/-- The run commits edits, and what they come to is the text that it began with. -/
def Restores (o : ConversionOptions) (s : Session) : Prop :=
  ∃ c s', run o s = .ok c s' ∧ s.document.generation < s'.document.generation ∧
    s'.document.source = s.document.source

theorem decode_ok {bytes : ByteArray} {text : String} :
    Document.decode bytes = .ok text ↔ bytes = text.toUTF8 := by
  unfold Document.decode
  constructor
  · intro h
    unfold String.fromUTF8? at h
    split at h
    · rename_i s hs
      cases h
      split at hs
      · cases hs
        rfl
      · cases hs
    · cases h
  · rintro rfl
    rw [fromUTF8?_of_text]

theorem run_keeps_text_iff {o : ConversionOptions} {s : Session} {text : String}
    (h : s.document.batch = none) (hcode : s.document.code = .ok text) :
    (∃ c s', run o s = .ok c s' ∧ c.code = text) ↔
      Settled o s.document.path s.document ∨ Restores o s := by
  constructor
  · intro hr
    obtain ⟨c, s', hrun, rfl⟩ := hr
    obtain ⟨p, hafter⟩ := run_program hrun
    rcases p.stays_or_moves s.document with hd | hmoves
    · rw [hafter] at hd
      exact .inl ((run_still_iff h hcode).mp ⟨c, s', hrun, hd⟩)
    · have hclosed := p.after_of_closed h
      rw [hafter] at hmoves hclosed
      obtain ⟨-, -, hcode', -⟩ := run_ok.mp hrun
      refine .inr ⟨c, s', hrun, ?_, ?_⟩
      · unfold Document.Moves at hmoves
        rw [Document.recorded_of_closed hclosed] at hmoves
        simpa using hmoves
      · rw [decode_ok.mp hcode, decode_ok.mp hcode']
  · intro hr
    rcases hr with hsettled | ⟨c, s', hrun, -, hsource⟩
    · obtain ⟨c, s', hrun, hd⟩ := (run_still_iff h hcode).mpr hsettled
      obtain ⟨-, -, hcode', -⟩ := run_ok.mp hrun
      rw [hd, hcode] at hcode'
      cases hcode'
      exact ⟨c, s', hrun, rfl⟩
    · obtain ⟨-, -, hcode', -⟩ := run_ok.mp hrun
      unfold Document.code at hcode hcode'
      rw [hsource, hcode] at hcode'
      cases hcode'
      exact ⟨c, s', hrun, rfl⟩

theorem ofSource_ok {o : ConversionOptions} {source : String} {file : Option String}
    {c : Conversion} :
    ofSource o source file = .ok c ↔
      ∃ d s, Document.ofString file source = .ok d ∧ run o ⟨d, file, []⟩ = .ok c s := by
  unfold ofSource
  cases Document.ofString file source with
  | error e =>
    constructor
    · intro h
      cases h
    · intro hr
      obtain ⟨d, s, h, -⟩ := hr
      cases h
  | ok d =>
    dsimp only [bind, Except.bind]
    cases hrun : run o ⟨d, file, []⟩ with
    | error e s =>
      constructor
      · intro h
        cases h
      · intro hr
        obtain ⟨d', s', hd, hrun'⟩ := hr
        cases hd
        rw [hrun] at hrun'
        cases hrun'
    | ok c' s =>
      constructor
      · intro h
        cases h
        exact ⟨d, s, rfl, hrun⟩
      · intro hr
        obtain ⟨d', s', hd, hrun'⟩ := hr
        cases hd
        rw [hrun] at hrun'
        cases hrun'
        rfl

theorem ofString_ok {file : Option String} {text : String} {d : Document}
    (h : Document.ofString file text = .ok d) : d.path = file ∧ d.source = text.toUTF8 := by
  unfold Document.ofString Document.ofBytes at h
  split at h
  · cases h
  · cases h
    exact ⟨rfl, rfl⟩

/-- What a conversion yields is a script again. -/
theorem ofString_code {o : ConversionOptions} {source : String} {file : Option String}
    {c : Conversion} (h : ofSource o source file = .ok c) :
    ∃ d, Document.ofString file c.code = .ok d := by
  obtain ⟨d, s, hd, hrun⟩ := ofSource_ok.mp h
  obtain ⟨p, hafter⟩ := run_program hrun
  obtain ⟨hsound, -⟩ := Document.sound_of_ofBytes hd
  have hparses := (p.after_sound hsound).parses
  obtain ⟨-, -, hcode, -⟩ := run_ok.mp hrun
  rw [hafter, decode_ok.mp hcode] at hparses
  unfold Document.ofString Document.ofBytes
  rw [hparses]
  exact ⟨_, rfl⟩

end Conversion

/-- The text that a conversion yields can be converted again. The second conversion yields it
unchanged if and only if no pass finds anything left to do in it, short of edits that come to
nothing in the end. -/
theorem conversion_repeats_iff {o : ConversionOptions} {source : String} {file : Option String}
    {c : Conversion} (h : Conversion.ofSource o source file = .ok c) :
    ∃ d, Document.ofString file c.code = .ok d ∧
      ((∃ c', Conversion.ofSource o c.code file = .ok c' ∧ c'.code = c.code) ↔
        Settled o file d ∨ Conversion.Restores o ⟨d, file, []⟩) := by
  obtain ⟨d, hd⟩ := Conversion.ofString_code h
  refine ⟨d, hd, ?_⟩
  have hclosed := (Document.sound_of_ofBytes hd).2
  obtain ⟨hpath, hsource⟩ := Conversion.ofString_ok hd
  have hcode : d.code = .ok c.code := Conversion.decode_ok.mpr hsource
  have hiff := @Conversion.run_keeps_text_iff o ⟨d, file, []⟩ c.code hclosed hcode
  rw [hpath] at hiff
  rw [← hiff]
  constructor
  · intro hr
    obtain ⟨c', hc', htext⟩ := hr
    obtain ⟨d', s', hd', hrun⟩ := Conversion.ofSource_ok.mp hc'
    rw [hd] at hd'
    cases hd'
    exact ⟨c', s', hrun, htext⟩
  · intro hr
    obtain ⟨c', s', hrun, htext⟩ := hr
    exact ⟨c', Conversion.ofSource_ok.mpr ⟨d, s', hd, hrun⟩, htext⟩

theorem conversion_repeats_name :
    ∃ c d, Conversion.ofSource { cwd := ⟨0, []⟩ } "a" none = .ok c ∧
      Document.ofString none c.code = .ok d ∧
      ((∃ c', Conversion.ofSource { cwd := ⟨0, []⟩ } c.code none = .ok c' ∧ c'.code = c.code) ↔
        Settled { cwd := ⟨0, []⟩ } none d ∨
          Conversion.Restores { cwd := ⟨0, []⟩ } ⟨d, none, []⟩) := by
  have hconverts : (Conversion.ofSource { cwd := ⟨0, []⟩ } "a" none).isOk = true := by
    decide +kernel
  cases hc : Conversion.ofSource { cwd := ⟨0, []⟩ } "a" none with
  | error e =>
    rw [hc] at hconverts
    cases hconverts
  | ok c =>
    obtain ⟨d, hd, hiff⟩ := conversion_repeats_iff hc
    exact ⟨c, d, rfl, hd, hiff⟩

/-- Two statements of one line with the comment on the second between them. -/
def commentBetween : String :=
  "a;// Conversion suggestion: .simulate() --> userEvent.<method>(<DOM_element>)\n" ++ "w.simulate()"

/-- A comment that is put between two statements of one line shares the line with the first of
them, so the next conversion does not find it and puts it there again. -/
theorem conversion_repeats_its_comment :
    ∃ c c', Conversion.ofSource { cwd := ⟨0, []⟩ } "a;w.simulate()" none = .ok c ∧
      Conversion.ofSource { cwd := ⟨0, []⟩ } c.code none = .ok c' ∧ c'.code ≠ c.code := by
  have hfirst : (Conversion.ofSource { cwd := ⟨0, []⟩ } "a;w.simulate()" none).toOption.map (·.code) =
      some commentBetween := by decide +kernel
  have hsecond : ((Conversion.ofSource { cwd := ⟨0, []⟩ } commentBetween none).toOption.map (·.code)).any
      (· != commentBetween) = true := by decide +kernel
  cases hc : Conversion.ofSource { cwd := ⟨0, []⟩ } "a;w.simulate()" none with
  | error e =>
    rw [hc] at hfirst
    cases hfirst
  | ok c =>
    rw [hc] at hfirst
    rw [← Option.some.inj hfirst] at hsecond
    cases hc' : Conversion.ofSource { cwd := ⟨0, []⟩ } c.code none with
    | error e =>
      rw [hc'] at hsecond
      cases hsecond
    | ok c' =>
      rw [hc'] at hsecond
      exact ⟨c, c', rfl, hc', bne_iff_ne.mp hsecond⟩

end TestMigration
