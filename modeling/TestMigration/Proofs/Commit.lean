import TestMigration.Tree.Document

/-! What closing a batch can do to a document: nothing at all, or the whole batch. -/

namespace TestMigration

namespace Batch

/-- The text a batch makes of another. -/
def outcome (b : Batch) (source : ByteArray) : ByteArray := Edit.splice source 0 b.settled.1

/-- The batch after a commit that had edits to apply. -/
def spent (b : Batch) : Batch :=
  { b with committed := true, applied := b.settled.1.length, deferred := b.settled.2 }

end Batch

namespace Document

theorem replaceSource_of_ok {d : Document} {source : ByteArray} {root : Script.Node}
    (h : d.read source = .ok root) :
    d.replaceSource source =
      .ok { d with source := source, root := root, generation := d.generation + 1 } := by
  unfold replaceSource
  rw [h]

theorem replaceSource_of_error {d : Document} {source : ByteArray} {place : Script.Location}
    (h : d.read source = .error place) :
    ∃ snippet, d.replaceSource source = .error (.invalidEdit place snippet) := by
  unfold replaceSource
  rw [h]
  exact ⟨_, rfl⟩

theorem commit_eq {d : Document} {b : Batch} (hc : b.committed = false) (hb : b.edits ≠ []) :
    d.commit b = match d.replaceSource (b.outcome d.source) with
      | .ok d' => (.ok (), b.spent, d')
      | .error e => (.error e, b.spent, d) := by
  have he : b.edits.isEmpty = false := by simpa using hb
  unfold commit
  rw [hc, he]
  rfl

/-- Every way a commit can go: the batch is spent already, it is empty, its outcome parses and
takes the place of the text, or its outcome does not parse and nothing but the batch changes. -/
theorem commit_cases (d : Document) (b : Batch) :
    (b.committed = true ∧
      d.commit b = (.error (.transformation "Edit batch already committed"), b, d)) ∨
    (b.committed = false ∧ b.edits = [] ∧ d.commit b = (.ok (), { b with committed := true }, d)) ∨
    (b.committed = false ∧ b.edits ≠ [] ∧ ∃ root, d.read (b.outcome d.source) = .ok root ∧
      d.commit b = (.ok (), b.spent,
        { d with source := b.outcome d.source, root := root, generation := d.generation + 1 })) ∨
    (b.committed = false ∧ b.edits ≠ [] ∧ ∃ place snippet,
      d.read (b.outcome d.source) = .error place ∧
      d.commit b = (.error (.invalidEdit place snippet), b.spent, d)) := by
  by_cases hc : b.committed = true
  · exact .inl ⟨hc, by simp [commit, hc]⟩
  · have hc : b.committed = false := by simpa using hc
    by_cases hb : b.edits = []
    · exact .inr (.inl ⟨hc, hb, by simp [commit, hc, hb]⟩)
    · cases hr : d.read (b.outcome d.source) with
      | ok root =>
        refine .inr (.inr (.inl ⟨hc, hb, root, rfl, ?_⟩))
        rw [commit_eq hc hb, replaceSource_of_ok hr]
      | error place =>
        obtain ⟨snippet, hs⟩ := replaceSource_of_error hr
        refine .inr (.inr (.inr ⟨hc, hb, place, snippet, rfl, ?_⟩))
        rw [commit_eq hc hb, hs]

end Document

end TestMigration
