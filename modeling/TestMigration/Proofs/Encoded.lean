import TestMigration.Proofs.Enduring

/-! Sources that stay texts. Whatever is done to a document that begins with a text, with handles that
were taken from it, at its top and by passes, it holds a text at any time, in blocks and between them,
whether or not what was done to it failed. So everything that is asked of its text can be decoded. -/

namespace TestMigration

open Script (Node Place Location)

/-- The passes, each with what it is given, and the conversion that runs them all. -/
inductive IsPass : {α : Type} → Pass α → Prop where
  | imports (cwd : PathName) (file : Option String) (attr : Text) (emitSetup : Bool) :
      IsPass (Import.replace cwd file attr emitSetup)
  | specifiers (cwd : PathName) (file : String) : IsPass (Import.absolutize cwd file)
  | renderCalls : IsPass RenderCall.normalise
  | wrappers (function : Option String) : IsPass (Wrapper.resolve function)
  | selectors (attr : Text) : IsPass (Selector.convert attr)
  | textAssertions : IsPass Assertion.convertText
  | simulations : IsPass Simulation.convert
  | presenceAssertions : IsPass Assertion.convertPresence
  | chains : IsPass Chain.removeIdle
  | suggestions (wrappers : List String) (attr : String) (snapshot : Option Snapshot) :
      IsPass (Suggestion.add wrappers attr snapshot)
  | conversion (o : ConversionOptions) : IsPass (Conversion.run o)

theorem IsPass.careful {α : Type} {pass : Pass α} {s : Session} (h : IsPass pass) :
    Careful Session.document pass s := by
  cases h with
  | imports cwd file attr emitSetup => exact Import.careful_replace cwd file attr emitSetup
  | specifiers cwd file => exact Import.careful_absolutize cwd file
  | renderCalls => exact RenderCall.careful_normalise
  | wrappers function => exact Wrapper.careful_resolve function
  | selectors attr => exact Selector.careful_convert attr
  | textAssertions => exact Assertion.careful_convertText
  | simulations => exact Simulation.careful_convert
  | presenceAssertions => exact Assertion.careful_convertPresence
  | chains => exact Chain.careful_removeIdle
  | suggestions wrappers attr snapshot => exact Suggestion.careful_add wrappers attr snapshot
  | conversion o => exact Conversion.careful_run o

namespace Document

variable {d : Document}

/-- What can be done to a document: edits with handles that were taken from it and at its top, passes,
and the beginning and the ends of a block, in which they may stand. -/
inductive Change (d : Document) : {α : Type} → Editing α → Prop where
  | replaceWith {h : Handle} (held : h.Held d) (text : Text) : Change d (h.replaceWith text)
  | remove {h : Handle} (held : h.Held d) : Change d h.remove
  | insertBefore {h : Handle} (held : h.Held d) (text : Text) : Change d (h.insertBefore text)
  | insertAtTop (text : Text) : Change d (insertAtTop text)
  | pass {α : Type} {pass : Pass α} (isPass : IsPass pass) (file : Option String)
      (findings : List Diagnostic) : Change d (pass.onDocument file findings)
  | enter : Change d openBatch
  | leave : Change d closeBatch
  | abandon : Change d dropBatch

/-- What a document becomes while it is changed, whether or not the changes fail. -/
inductive Becomes (first : Document) : Document → Prop where
  | start : Becomes first first
  | change {α : Type} {d d' : Document} {m : Editing α} {x : Except Failure α}
      (earlier : Becomes first d) (change : d.Change m) (run : Leaves m d x d') : Becomes first d'

theorem Change.careful {α : Type} {m : Editing α} (h : d.Change m) : Careful id m d := by
  cases h with
  | replaceWith held text => exact Handle.careful_replaceWith held text
  | remove held => exact Handle.careful_remove held
  | insertBefore held text => exact Handle.careful_insertBefore held text
  | insertAtTop text => exact careful_insertAtTop text
  | pass isPass file findings => exact Pass.careful_onDocument isPass.careful
  | enter => exact (yields_openBatch d).careful
  | leave => exact careful_closeBatch d
  | abandon => exact (yields_dropBatch d).careful

theorem Becomes.intact {first : Document} (hfirst : first.Intact) (h : first.Becomes d) :
    d.Intact ∧ first.Precedes d := by
  induction h with
  | start => exact ⟨hfirst, .refl first⟩
  | change earlier change run ih =>
    obtain ⟨hd, hlater⟩ := ih
    obtain ⟨hd', hlater', -⟩ := change.careful hd _ _ run
    exact ⟨hd', hlater.trans hlater'⟩

/-- The document holds a text, and whatever asks for a piece of it can be answered: a refusal has to do
with handles and ranges, not with the bytes. -/
structure Decodes (d : Document) : Prop where
  source : ∃ text : String, d.source = text.toUTF8 ∧ d.code = .ok text
  textOf : ∀ p : Place, p.Within d.root → ∃ text, d.textOf p.node = .ok text
  indentation : ∀ offset, ∃ stop,
    decode (d.source.extract (d.lineStart offset) stop) = .ok (d.indentation offset)
  linesBefore : ∀ offset, ∃ above, d.linesBefore offset = .ok above
  text : ∀ h : Handle, h.Held d → ∀ e, h.text d = .error e → e.kind ≠ .undecodable
  textWith : ∀ (h : Handle) (replacements : List (Handle × String)), h.Held d →
    (∀ r ∈ replacements, r.1.Held d) → ∀ e, h.textWith replacements d = .error e → e.kind ≠ .undecodable
  change : ∀ {α : Type} {m : Editing α} {e : Failure} {d' : Document}, d.Change m →
    m d = .error e d' → e.kind ≠ .undecodable

theorem Intact.decodes (hd : d.Intact) : d.Decodes where
  source := hd.code.imp fun _ h => h.symm
  textOf p hp := ⟨_, hd.legible p hp⟩
  indentation := d.decode_indentation
  linesBefore := hd.linesBefore
  text _ hh := (Handle.safe_text hh hd).2
  textWith _ _ hh hr := (Handle.safe_textWith hh hr hd).2
  change hchange hrun := (hchange.careful hd (.error _) _ hrun).2.2.2 _ rfl

end Document

end TestMigration
