import TestMigration.Proofs.Atomic
import TestMigration.Proofs.Look

/-! The passes touch a document through programs only: they look, record edits and close blocks,
and nothing in them handles a failure. So a pass fails over an outcome that does not parse exactly
if one of the batches that it closes has such an outcome, and that batch is its last. -/

namespace TestMigration

open Script (Node Kind Field Place Location)

namespace Closing

/-- The outcome of the batch does not parse. -/
def Breaks (c : Closing) : Prop :=
  c.batch.edits ≠ [] ∧ ∃ place, c.document.read (c.batch.outcome c.document.source) = .error place

end Closing

theorem Batch.faultless_add (b : Batch) (generation length : Nat) (start stop : Int) (text : Text)
    (ahead : Bool) : Faultless (b.add generation length start stop text ahead) := by
  unfold add
  split
  · exact faultless_throw (by simp [Failure.transformation])
  split
  · exact faultless_throw (by simp [Failure.stale])
  split
  · exact faultless_throw (by simp [Failure.transformation])
  split
  · exact faultless_throw (by simp [Failure.of])
  dsimp only
  split
  · exact faultless_pure _
  · exact faultless_pure _

namespace Program

variable {α : Type}

/-- No failure is handled, and a look fails in other ways than an edit. -/
def Direct : {α : Type} → Program α → Prop
  | _, look l => ∀ d, Faultless (l d)
  | _, bind p next => p.Direct ∧ ∀ a, (next a).Direct
  | _, attempt .. => False
  | _, add .. => True
  | _, batched body => body.Direct

/-- In a block no outcome is read. -/
theorem fails_of_open (p : Program α) (hp : p.Direct) {d d' : Document} {e : Failure}
    (h : d.batch.isSome) (hr : p.run d = .error e d') : e.kind ≠ .invalidEdit := by
  induction p generalizing d d' with
  | look l =>
    rw [run_look] at hr
    cases hl : l d with
    | ok a =>
      rw [hl] at hr
      cases hr
    | error e' =>
      rw [hl] at hr
      cases hr
      exact hp d _ hl
  | bind p next ihp ihn =>
    rw [run_bind] at hr
    cases hd : p.run d with
    | error e' d₁ =>
      rw [hd] at hr
      cases hr
      exact ihp hp.1 h hd
    | ok a d₁ =>
      rw [hd] at hr
      obtain ⟨b, hb⟩ := Option.isSome_iff_exists.mp h
      obtain ⟨b₁, h₁, -⟩ := after_of_open p hb
      rw [after_of_ok hd] at h₁
      exact ihn a (hp.2 a) (by rw [h₁]; rfl) hr
  | attempt p handler ihp ihh => exact hp.elim
  | add start stop text ahead =>
    obtain ⟨b, hb⟩ := Option.isSome_iff_exists.mp h
    rw [run_add_of_open hb] at hr
    cases ha : b.add d.generation d.source.size start stop text ahead with
    | ok b' =>
      rw [ha] at hr
      cases hr
    | error e' =>
      rw [ha] at hr
      cases hr
      exact Batch.faultless_add _ _ _ _ _ _ _ _ ha
  | batched body ih =>
    rw [run_batched_of_open h] at hr
    cases hr
    simp [Failure.transformation]

/-- A block on its own fails over an outcome exactly if the outcome of its batch does not parse: what
fails within the block fails in another way. -/
theorem batched_fails_iff_breaks (body : Program α) (hp : body.Direct) {d : Document}
    (h : d.batch = none) : (∃ e d', (batched body).run d = .error e d' ∧ e.kind = .invalidEdit) ↔
      ∃ c ∈ (batched body).closings d, c.Breaks := by
  rcases batched_cases body h with ⟨e, ⟨d', hbody⟩, hr, hc⟩ | ⟨a, b, -, hc, -, ⟨hb, hr⟩ |
    ⟨hb, root, hroot, hr⟩ | ⟨hb, place, snippet, hplace, hr⟩⟩
  · have he := body.fails_of_open hp (d := d.opened) rfl hbody
    rw [hr, hc]
    simp [he]
  · rw [hr, hc]
    simp [Closing.Breaks, hb]
  · rw [hr, hc]
    simp [Closing.Breaks, hroot]
  · rw [hr, hc]
    simp [Closing.Breaks, hb, hplace, Failure.invalidEdit]

/-- Outside blocks a run fails over an outcome exactly if it closes a batch whose outcome does not
parse. -/
theorem fails_iff_breaks (p : Program α) (hp : p.Direct) {d : Document} (h : d.batch = none) :
    (∃ e d', p.run d = .error e d' ∧ e.kind = .invalidEdit) ↔ ∃ c ∈ p.closings d, c.Breaks := by
  induction p generalizing d with
  | look l =>
    have hcloses : (look l).closings d = [] := by rw [closings]
    rw [run_look, hcloses]
    cases hl : l d with
    | ok a => simp
    | error e => simp [hp _ _ hl]
  | bind p next ihp ihn =>
    have hiff := ihp hp.1 h
    rw [closings_bind, run_bind]
    cases hd : p.run d with
    | error e d₁ =>
      rw [hd] at hiff
      rw [List.append_nil, ← hiff]
      simp
    | ok a d₁ =>
      have hn := p.after_of_closed h
      rw [after_of_ok hd] at hn
      have hsound : ¬ ∃ c ∈ p.closings d, c.Breaks := by
        rw [← hiff, hd]
        simp
      simp only [List.mem_append, or_and_right, exists_or, hsound, false_or]
      exact ihn a (hp.2 a) hn
  | attempt p handler ihp ihh => exact hp.elim
  | add start stop text ahead =>
    have hcloses : (add start stop text ahead).closings d = [] := by rw [closings]
    rw [run_add_of_closed h start stop text ahead, hcloses]
    simp [Failure.transformation]
  | batched body ih => exact batched_fails_iff_breaks body hp h

end Program

/-! ## Computations that are programs -/

/-- The computation does what a program does that handles no failure. -/
def Made {α : Type} (m : Editing α) : Prop := ∃ p : Program α, p.run = m ∧ p.Direct

theorem made_look {α : Type} {l : Looking α} (hl : Plain l) : Made (Document.looking l) :=
  ⟨.look l, rfl, hl.faultless⟩

theorem made_stepwise : Stepwise Editing @Made where
  pure a := ⟨.pure a, Program.run_pure a, fun _ => faultless_pure a⟩
  bind := by
    intro α β x next hx hn
    obtain ⟨p, rfl, hp⟩ := hx
    refine ⟨.bind p fun a => (hn a).choose, ?_, hp, fun a => (hn a).choose_spec.2⟩
    exact congrArg (p.run >>= ·) (funext fun a => (hn a).choose_spec.1)

section

variable {α β : Type}

theorem made_pure (a : α) : Made (pure a) := made_stepwise.pure a

theorem Made.bind {x : Editing α} {next : α → Editing β} (hx : Made x) (hn : ∀ a, Made (next a)) :
    Made (x >>= next) := made_stepwise.bind hx hn

theorem made_throw {e : Failure} (he : e.kind ≠ .invalidEdit) : Made (throw e : Editing α) :=
  ⟨.fail e, Program.run_fail e, fun _ => faultless_throw he⟩

theorem made_get : Made (get : Editing Document) := ⟨.look read, rfl, fun d => faultless_pure d⟩

theorem made_except {x : Except Failure α} (hx : Faultless x) :
    Made (liftM x : Editing α) := by
  cases x with
  | ok a => exact made_pure a
  | error e => exact made_throw (hx e rfl)

theorem made_batched {body : Editing α} (hb : Made body) : Made (Document.batched body) := by
  obtain ⟨p, rfl, hp⟩ := hb
  exact ⟨.batched p, rfl, hp⟩

theorem made_editing {body : Editing α} (hb : Made body) : Made (Document.editing body) := by
  refine made_get.bind fun d => ?_
  split
  · exact hb
  · exact (made_batched hb).bind fun _ => made_pure _

theorem made_record (start stop : Int) (text : Text) (ahead : Bool) :
    Made (Document.recordEdit start stop text ahead) :=
  made_editing ⟨.add start stop text ahead, rfl, trivial⟩

theorem made_insertAtTop (text : Text) : Made (Document.insertAtTop text) := by
  unfold Document.insertAtTop
  split
  · exact made_pure _
  · exact made_get.bind fun d => made_record _ _ _ _

theorem made_roundsFrom {round : Editing Unit} (hr : Made round) (limit : Int) (rounds total : Nat) :
    Made (Document.roundsFrom round limit rounds total) := by
  induction rounds generalizing total with
  | zero => exact made_throw (by simp [Failure.transformation])
  | succ rounds ih =>
    refine (made_batched hr).bind fun r => ?_
    obtain ⟨-, b⟩ := r
    dsimp only
    split
    · exact made_pure _
    · exact ih _

theorem made_untilStable {round : Editing Unit} (hr : Made round) (limit : Int) :
    Made (Document.untilStable round limit) := made_roundsFrom hr limit _ _

end

namespace Handle

theorem made_replaceWith (h : Handle) (text : Text) : Made (h.replaceWith text) :=
  (made_look h.plain_node).bind fun _ => made_record _ _ _ _

theorem made_replaceBy {build : Handle → Looking (Option Text)} (hb : ∀ h, Plain (build h))
    (h : Handle) : Made (h.replaceBy build) := by
  refine (made_look (hb h)).bind fun text => ?_
  split
  · exact (h.made_replaceWith _).bind fun _ => made_pure _
  · exact made_pure _

theorem made_remove (h : Handle) : Made h.remove :=
  (made_look h.plain_node).bind fun _ => made_get.bind fun _ =>
    (made_look h.plain_isStatement).bind fun _ => made_record _ _ _ _

theorem made_insertBefore (h : Handle) (text : Text) : Made (h.insertBefore text) := by
  refine (made_look h.plain_node).bind fun n => made_get.bind fun d => ?_
  dsimp only
  split
  · exact made_record _ _ _ _
  · exact made_record _ _ _ _

end Handle

namespace MatchSet

theorem made_replaceWith {set : MatchSet} (hs : set.Quiet) {build : Handle → Looking (Option Text)}
    (hb : ∀ h, Plain (build h)) : Made (set.replaceWith build) := by
  refine (made_look (plain_members set hs)).bind fun members => ?_
  split
  · exact made_pure _
  · exact made_editing ((made_stepwise.mapM (Handle.made_replaceBy hb) members).bind fun _ =>
      made_pure _)

theorem made_ofTree_bind {α : Type} {p : Pattern} (hp : p.Quiet) {next : MatchSet → Editing α}
    (hn : ∀ set, set.Quiet → Made (next set)) :
    Made ((liftM (ofTree p) : Editing MatchSet) >>= next) := by
  have h : (liftM (ofTree p) : Editing MatchSet) >>= next =
      (get : Editing Document) >>= fun d => next (.within [⟨d.generation, .root d.root⟩] p) := by
    funext d
    rfl
  rw [h]
  exact made_get.bind fun d => hn _ hp

end MatchSet

/-! ## Passes -/

namespace Pass

variable {α β : Type}

/-- What a pass does to the document, whatever was reported before it. -/
def onDocument (m : Pass α) (file : Option String) (findings : List Diagnostic) : Editing α :=
  fun d => match m ⟨d, file, findings⟩ with
    | .ok a s => .ok a s.document
    | .error e s => .error e s.document

/-- On the document the pass is a program. -/
def Programmed (m : Pass α) : Prop := ∀ file findings, Made (m.onDocument file findings)

theorem onDocument_lift (edit : Editing α) (file : Option String) (findings : List Diagnostic) :
    (lift edit).onDocument file findings = edit := by
  funext d
  unfold onDocument lift
  cases edit d <;> rfl

theorem programmed_lift {edit : Editing α} (he : Made edit) : Programmed (lift edit) := by
  intro file findings
  rw [onDocument_lift]
  exact he

theorem programmed_stepwise : Stepwise Pass @Programmed where
  pure a := fun file findings => made_pure a
  bind := by
    intro α β x next hx hn file findings
    -- what the first part reports depends on the document it starts from
    let rest (d : Document) (a : α) : Editing β :=
      match x ⟨d, file, findings⟩ with
      | .ok _ s => (next a).onDocument s.file s.findings
      | .error _ s => (next a).onDocument s.file s.findings
    have h : (x >>= next).onDocument file findings =
        (get : Editing Document) >>= fun d => x.onDocument file findings >>= rest d := by
      funext d
      rw [Document.bind_apply, Document.get_apply]
      dsimp only
      rw [Document.bind_apply]
      dsimp only [rest, onDocument, bind, EStateM.bind]
      cases x ⟨d, file, findings⟩ <;> rfl
    rw [h]
    refine made_get.bind fun d => (hx file findings).bind fun a => ?_
    dsimp only [rest]
    split
    · exact hn a _ _
    · exact hn a _ _

theorem programmed_pure (a : α) : Programmed (pure a) := programmed_stepwise.pure a

theorem Programmed.bind {x : Pass α} {next : α → Pass β} (hx : Programmed x)
    (hn : ∀ a, Programmed (next a)) : Programmed (x >>= next) := programmed_stepwise.bind hx hn

/-- On the document a pass that succeeds is the run of a program. -/
theorem Programmed.run_ok {m : Pass α} (hm : Programmed m) {s s' : Session} {a : α}
    (h : m s = .ok a s') : ∃ p : Program α, p.run s.document = .ok a s'.document := by
  obtain ⟨p, hp, -⟩ := hm s.file s.findings
  refine ⟨p, ?_⟩
  rw [hp]
  unfold onDocument
  rw [h]

theorem programmed_look {l : Looking α} (hl : Plain l) : Programmed (liftM l : Pass α) :=
  programmed_lift (made_look hl)

theorem programmed_get : Programmed (get : Pass Session) := by
  intro file findings
  refine ⟨.look fun d => .ok ⟨d, file, findings⟩, ?_, fun d => faultless_pure _⟩
  funext d
  exact Program.run_look _ d

theorem programmed_throw {e : Failure} (he : e.kind ≠ .invalidEdit) :
    Programmed (throw e : Pass α) := by
  intro file findings
  exact made_throw he

theorem programmed_report (code : DiagnosticCode) (message : String) (level : DiagnosticLevel)
    (line : Option Int) : Programmed (report code message level line) :=
  fun _ _ => made_pure _

/-- A pass that replaces what a pattern finds in the tree. -/
theorem programmed_replaceWith {p : Pattern} (hp : p.Quiet)
    {build : Handle → Looking (Option Text)} (hb : ∀ h, Plain (build h)) :
    Programmed (do (← (MatchSet.ofTree p : Looking _)).replaceWith build) := by
  intro file findings
  have h : (do (← (MatchSet.ofTree p : Looking _)).replaceWith build : Pass Nat).onDocument
      file findings = (do (← (MatchSet.ofTree p : Looking _)).replaceWith build : Editing Nat) := by
    funext d
    change (lift ((MatchSet.within [⟨d.generation, .root d.root⟩] p).replaceWith build)).onDocument
      file findings d = (MatchSet.within [⟨d.generation, .root d.root⟩] p).replaceWith build d
    rw [onDocument_lift]
  rw [h]
  exact MatchSet.made_ofTree_bind hp fun set hs => set.made_replaceWith hs hb

end Pass

end TestMigration
