import TestMigration.Proofs.Passes

/-! A conversion fails over an outcome that does not parse exactly if one of its passes closes such
a batch. -/

namespace TestMigration

/-- The batches of a run make texts that are read the way the document is. -/
theorem Program.closings_read {α : Type} (p : Program α) (d : Document) :
    ∀ c ∈ p.closings d, c.document.read = d.read := by
  refine (run_closes (R := fun d cs d' =>
    d'.read = d.read ∧ ∀ c ∈ cs, c.document.read = d.read) ?_ ?_ ?_ ?_ ?_ p d).2
  · exact fun d => ⟨rfl, by simp⟩
  · intro d d' d'' cs cs' h h'
    obtain ⟨hd, hcs⟩ := h
    obtain ⟨hd', hcs'⟩ := h'
    refine ⟨hd'.trans hd, fun c hc => ?_⟩
    rcases List.mem_append.mp hc with hc | hc
    · exact hcs c hc
    · exact (hcs' c hc).trans hd
  · exact fun _ _ _ => ⟨rfl, by simp⟩
  · exact fun _ _ => ⟨rfl, by simp⟩
  · exact fun _ _ _ _ => ⟨rfl, by simp⟩

/-- What a computation on a document yields. -/
def Document.result {α : Type} (m : Editing α) (d : Document) : Except Failure α :=
  match m d with
  | .ok a _ => .ok a
  | .error e _ => .error e

theorem Document.result_eq_error {α : Type} {m : Editing α} {d : Document} {e : Failure} :
    result m d = .error e ↔ ∃ d', m d = .error e d' := by
  unfold result
  cases m d with
  | ok a d' => simp
  | error e' d' => simp

theorem Conversion.ofSource_eq (o : ConversionOptions) (source : String) (file : Option String) :
    ofSource o source file =
      (Document.ofString file source).bind (Document.result ((run o).onDocument file [])) := by
  unfold ofSource
  cases Document.ofString file source with
  | error e => rfl
  | ok d =>
    change _ = Document.result ((run o).onDocument file []) d
    unfold Document.result Pass.onDocument
    dsimp only [bind, Except.bind]
    cases run o ⟨d, file, []⟩ <;> rfl

/-- A conversion is a program that handles no failure. On a script that parses it fails over an
edit unless every batch that it closes makes a text of the document that parses again. -/
theorem conversion_valid_iff (o : ConversionOptions) (file : Option String) :
    ∃ p : Program Conversion, p.Direct ∧
      (∀ source, Conversion.ofSource o source file =
        (Document.ofString file source).bind (Document.result p.run)) ∧
      ∀ source d, Document.ofString file source = .ok d →
        ((∀ e, Conversion.ofSource o source file = .error e → e.kind ≠ .invalidEdit) ↔
          ∀ c ∈ p.closings d, c.batch.edits ≠ [] → ∃ root,
            Script.parse (dialectFor file) (c.batch.outcome c.document.source) = .ok root) := by
  obtain ⟨p, hp, hd⟩ := Conversion.programmed_run o file []
  refine ⟨p, hd, fun source => by rw [hp]; exact Conversion.ofSource_eq o source file,
    fun source d hof => ?_⟩
  obtain ⟨hs, hb⟩ := Document.sound_of_ofBytes hof
  have hsource : Conversion.ofSource o source file = Document.result p.run d := by
    rw [Conversion.ofSource_eq, hof, hp]
    rfl
  have hbreaks : (∃ e, Conversion.ofSource o source file = .error e ∧ e.kind = .invalidEdit) ↔
      ∃ c ∈ p.closings d, c.Breaks := by
    rw [← p.fails_iff_breaks hd hb, hsource]
    simp only [Document.result_eq_error, exists_and_right]
  constructor
  · intro hvalid c hc he
    have hread : c.document.read = Script.parse (dialectFor file) :=
      (p.closings_read d c hc).trans hs.reads
    cases hr : Script.parse (dialectFor file) (c.batch.outcome c.document.source) with
    | ok root => exact ⟨root, rfl⟩
    | error place =>
      have hc' : c.Breaks := ⟨he, place, by rw [hread]; exact hr⟩
      obtain ⟨e, hfails, hkind⟩ := hbreaks.mpr ⟨c, hc, hc'⟩
      exact absurd hkind (hvalid e hfails)
  · intro hparses e hfails hkind
    obtain ⟨c, hc, he, place, hplace⟩ := hbreaks.mp ⟨e, hfails, hkind⟩
    obtain ⟨root, hroot⟩ := hparses c hc he
    rw [p.closings_read d c hc, hs.reads, hroot] at hplace
    cases hplace

/-- A comment that ends with its line hides the bracket that is put after it, so the pass on text
assertions breaks a script that parses. -/
theorem conversion_breaks_over_comment :
    (Document.ofString none "expect(w.text()).toBe(1//\n)").isOk ∧
      ∃ e, Conversion.ofSource { cwd := ⟨0, []⟩ } "expect(w.text()).toBe(1//\n)" none = .error e ∧
        e.kind = .invalidEdit := by
  obtain ⟨hparses, hfails⟩ : (Document.ofString none "expect(w.text()).toBe(1//\n)").isOk ∧
      (match Conversion.ofSource { cwd := ⟨0, []⟩ } "expect(w.text()).toBe(1//\n)" none with
      | .ok _ => none
      | .error e => some e.kind) = some .invalidEdit := by
    decide +kernel
  refine ⟨hparses, ?_⟩
  cases hc : Conversion.ofSource { cwd := ⟨0, []⟩ } "expect(w.text()).toBe(1//\n)" none with
  | ok c =>
    rw [hc] at hfails
    cases hfails
  | error e =>
    rw [hc] at hfails
    exact ⟨e, rfl, Option.some.inj hfails⟩

end TestMigration
