import TestMigration.Proofs.Commit
import TestMigration.Tree.Handle

/-! Computations on a document as data. A program looks at the document, records edits, opens
blocks and handles failures; `run` gives it the library's own operations, so that what is proved
by induction on programs holds of every sequence of those operations. The batches that a run
closes are listed with the documents they are applied to. -/

namespace TestMigration

open Script (Node Location)

theorem eq_of_bytes {a b : ByteArray} (h : (a == b) = true) : a = b := by
  cases a
  cases b
  exact congrArg ByteArray.mk (eq_of_beq h)

namespace Batch

/-- `b'` is what a block makes of `b`: only edits are recorded. -/
def Continues (b b' : Batch) : Prop := ∃ more, b' = { b with edits := b.edits ++ more }

theorem Continues.refl (b : Batch) : Continues b b := ⟨[], by rw [List.append_nil]⟩

theorem Continues.trans {b b' b'' : Batch} (h : Continues b b') (h' : Continues b' b'') :
    Continues b b'' := by
  obtain ⟨more, rfl⟩ := h
  obtain ⟨more', rfl⟩ := h'
  exact ⟨more ++ more', by rw [List.append_assoc]⟩

theorem Continues.committed {b b' : Batch} (h : Continues b b') : b'.committed = b.committed := by
  obtain ⟨more, rfl⟩ := h
  rfl

section Adding

variable {b b' : Batch} {generation length : Nat} {start stop : Int} {text : Text} {ahead : Bool}

/-- What recording tells: the batch is open, the range lies in a text of its generation, and the new
text is a string. The edit is put at the end, unless the batch holds the same edit. -/
theorem add_cases (h : b.add generation length start stop text ahead = .ok b') :
    (b.committed = false ∧ b.generation = generation ∧ 0 ≤ start ∧ start ≤ stop ∧ stop ≤ length) ∧
    ∃ s, text.toString? = some s ∧
      ((∃ e ∈ b.edits, e.start = start.toNat ∧ e.stop = stop.toNat ∧ e.text = s.toUTF8) ∧ b' = b ∨
        b' = { b with edits := b.edits ++ [⟨start.toNat, stop.toNat, s.toUTF8, b.size, ahead⟩] }) := by
  unfold add at h
  split at h
  · cases h
  rename_i hopen
  split at h
  · cases h
  rename_i hgeneration
  split at h
  · cases h
  rename_i hrange
  simp only [Bool.or_eq_true, decide_eq_true_eq, not_or, Int.not_lt] at hrange
  split at h
  · cases h
  rename_i s hs
  refine ⟨⟨by simpa using hopen, (by simpa using hgeneration : generation = b.generation).symm,
    hrange.1.1, hrange.1.2, hrange.2⟩, s, hs, ?_⟩
  dsimp only at h
  split at h
  · rename_i hany
    cases h
    obtain ⟨e, he, hsame⟩ := List.any_eq_true.mp hany
    simp only [Bool.and_eq_true, beq_iff_eq] at hsame
    exact .inl ⟨⟨e, he, hsame.1.1, hsame.1.2, eq_of_bytes hsame.2⟩, rfl⟩
  · cases h
    exact .inr rfl

/-- Recording adds an edit, unless the same edit is there. -/
theorem add_of_ok (h : b.add generation length start stop text ahead = .ok b') :
    (b.edits ≠ [] ∧ b' = b) ∨ ∃ e, b' = { b with edits := b.edits ++ [e] } := by
  obtain ⟨-, s, -, ⟨⟨e, he, -⟩, rfl⟩ | rfl⟩ := add_cases h
  · exact .inl ⟨List.ne_nil_of_mem he, rfl⟩
  · exact .inr ⟨_, rfl⟩

theorem continues_of_add (h : b.add generation length start stop text ahead = .ok b') :
    Continues b b' := by
  rcases add_of_ok h with ⟨-, rfl⟩ | ⟨e, rfl⟩
  · exact .refl b'
  · exact ⟨[e], rfl⟩

/-- What recording leaves: the batch as it was, or with an edit inside a text of its generation. -/
theorem add_inside (h : b.add generation length start stop text ahead = .ok b') :
    b' = b ∨ b.generation = generation ∧ ∃ e : Edit, e.start ≤ e.stop ∧ e.stop ≤ length ∧
      b' = { b with edits := b.edits ++ [e] } := by
  obtain ⟨⟨-, hgeneration, -, hle, hsize⟩, s, -, ⟨-, rfl⟩ | rfl⟩ := add_cases h
  · exact .inl rfl
  · exact .inr ⟨hgeneration, _, Int.toNat_le_toNat hle, Int.toNat_le.mpr hsize, rfl⟩

end Adding

end Batch

/-! ## One block -/

namespace Document

/-- The document as a block's body finds it. -/
def opened (d : Document) : Document := { d with batch := some (.open' d.generation) }

def closed (d : Document) : Document := { d with batch := none }

/-! A step of a computation, so that the proofs below run one without opening the monad. -/

section Steps

variable {α β : Type}

theorem bind_apply (m : Editing α) (f : α → Editing β) (d : Document) :
    (m >>= f) d = match m d with
      | .ok a d' => f a d'
      | .error e d' => .error e d' := by
  change EStateM.bind m f d = _
  unfold EStateM.bind
  cases m d <;> rfl

theorem get_apply (d : Document) : (get : Editing Document) d = .ok d d := rfl

theorem set_apply (d' d : Document) : (set d' : Editing PUnit) d = .ok ⟨⟩ d' := rfl

theorem tryCatch_apply (m : Editing α) (handler : Failure → Editing α) (d : Document) :
    (tryCatch m handler) d = match m d with
      | .ok a d' => .ok a d'
      | .error e d' => handler e d' := by
  change EStateM.tryCatch m handler d = _
  unfold EStateM.tryCatch
  cases m d <;> rfl

theorem looking_apply (look : Looking α) (d : Document) :
    looking look d = match look d with
      | .ok a => .ok a d
      | .error e => .error e d := by
  unfold looking
  rw [bind_apply, get_apply]
  dsimp only
  cases look d <;> rfl

end Steps

theorem batched_of_open {α : Type} {d : Document} (m : Editing α) (h : d.batch.isSome) :
    batched m d = .error (.transformation "Edit batches cannot be nested") d := by
  have ho : openBatch d = .error (.transformation "Edit batches cannot be nested") d := by
    unfold openBatch
    rw [bind_apply, get_apply]
    simp only [h, if_true]
    rfl
  unfold batched
  rw [bind_apply, ho]

theorem openBatch_of_closed {d : Document} (h : d.batch = none) : openBatch d = .ok ⟨⟩ d.opened := by
  unfold openBatch
  rw [bind_apply, get_apply]
  simp only [h, Option.isSome_none, Bool.false_eq_true, if_false]
  rfl

theorem closeBatch_apply (d : Document) :
    closeBatch d = match d.batch with
      | none => .error (.transformation "No edit batch is open") d.closed
      | some b => match d.closed.commit b with
        | (.ok (), b', d') => .ok b' d'
        | (.error e, _, d') => .error e d' := by
  unfold closeBatch
  rw [bind_apply]
  have hd : dropBatch d = .ok d.batch d.closed := rfl
  rw [hd]
  cases d.batch with
  | none => rfl
  | some b =>
    dsimp only
    rw [bind_apply, get_apply]
    dsimp only
    rw [bind_apply, set_apply]
    rcases d.closed.commit b with ⟨_ | _, _, _⟩ <;> rfl

/-- A block on its own: its body runs with a new batch open, and the batch is applied if the
body does not fail. -/
theorem batched_of_closed {α : Type} {d : Document} (m : Editing α) (h : d.batch = none) :
    batched m d = match m d.opened with
      | .error e d' => .error e d'.closed
      | .ok a d' => match closeBatch d' with
        | .ok b d'' => .ok (a, b) d''
        | .error e d'' => .error e d'' := by
  unfold batched
  rw [bind_apply, openBatch_of_closed h]
  dsimp only
  rw [bind_apply, tryCatch_apply]
  cases m d.opened with
  | error e d' => rfl
  | ok a d' =>
    dsimp only
    rw [bind_apply]
    cases closeBatch d' <;> rfl

end Document

/-! ## Programs -/

/-- `attempt` runs its handler where its first part left the document; `add` needs an open batch. -/
inductive Program : Type → Type 1 where
  | look {α : Type} (l : Looking α) : Program α
  | bind {α β : Type} (p : Program α) (next : α → Program β) : Program β
  | attempt {α : Type} (p : Program α) (handler : Failure → Program α) : Program α
  | add (start stop : Int) (text : Text) (ahead : Bool) : Program Unit
  | batched {α : Type} (body : Program α) : Program (α × Batch)

/-- A batch at its end, with the document it is applied to. -/
structure Closing where
  document : Document
  batch : Batch

namespace Closing

/-- The closing of the batch that a block's body leaves open. -/
def ofDocument (d : Document) : List Closing := (d.batch.map fun b => ⟨d.closed, b⟩).toList

/-- Does the closing change the document? It has edits to apply, and their outcome parses. -/
def counts (c : Closing) : Bool := !c.batch.edits.isEmpty && (c.document.commit c.batch).1.isOk

end Closing

namespace Program

def run : {α : Type} → Program α → Editing α
  | _, look l => Document.looking l
  | _, bind p next => p.run >>= fun a => (next a).run
  | _, attempt p handler => tryCatch p.run fun e => (handler e).run
  | _, add start stop text ahead => Document.addToBatch start stop text ahead
  | _, batched body => Document.batched body.run

/-- The batches that a run closes, in their order. -/
def closings : {α : Type} → Program α → Document → List Closing
  | _, look _, _ => []
  | _, bind p next, d => p.closings d ++ match p.run d with
    | .ok a d' => (next a).closings d'
    | .error _ _ => []
  | _, attempt p handler, d => p.closings d ++ match p.run d with
    | .ok _ _ => []
    | .error e d' => (handler e).closings d'
  | _, add .., _ => []
  | _, batched body, d =>
    if d.batch.isSome then []
    else body.closings d.opened ++ match body.run d.opened with
      | .ok _ d' => Closing.ofDocument d'
      | .error _ _ => []

/-- How many commits of batches with edits succeed in a run. -/
def commits {α : Type} (p : Program α) (d : Document) : Nat := (p.closings d).countP Closing.counts

/-- The document a run leaves, whichever way it ends. -/
def after {α : Type} (p : Program α) (d : Document) : Document :=
  match p.run d with
  | .ok _ d' => d'
  | .error _ d' => d'

/-! ## Steps of a run -/

section

variable {α β : Type}

theorem run_look (l : Looking α) (d : Document) :
    (look l).run d = match l d with
      | .ok a => .ok a d
      | .error e => .error e d := Document.looking_apply l d

theorem run_bind (p : Program α) (next : α → Program β) (d : Document) :
    (bind p next).run d = match p.run d with
      | .ok a d' => (next a).run d'
      | .error e d' => .error e d' := Document.bind_apply _ _ d

theorem run_attempt (p : Program α) (handler : Failure → Program α) (d : Document) :
    (attempt p handler).run d = match p.run d with
      | .ok a d' => .ok a d'
      | .error e d' => (handler e).run d' := Document.tryCatch_apply _ _ d

theorem run_add_of_open {d : Document} {b : Batch} (h : d.batch = some b) (start stop : Int)
    (text : Text) (ahead : Bool) :
    (add start stop text ahead).run d =
      match b.add d.generation d.source.size start stop text ahead with
        | .ok b' => .ok () { d with batch := some b' }
        | .error e => .error e d := by
  change Document.addToBatch start stop text ahead d = _
  unfold Document.addToBatch
  rw [Document.bind_apply, Document.get_apply]
  simp only [h]
  cases b.add d.generation d.source.size start stop text ahead <;> rfl

theorem run_add_of_closed {d : Document} (h : d.batch = none) (start stop : Int) (text : Text)
    (ahead : Bool) : (add start stop text ahead).run d =
      .error (.transformation "No edit batch is open") d := by
  change Document.addToBatch start stop text ahead d = _
  unfold Document.addToBatch
  rw [Document.bind_apply, Document.get_apply]
  simp only [h]
  rfl

theorem run_batched_of_open {d : Document} (h : d.batch.isSome) (body : Program α) :
    (batched body).run d = .error (.transformation "Edit batches cannot be nested") d :=
  Document.batched_of_open body.run h

theorem closings_bind (p : Program α) (next : α → Program β) (d : Document) :
    (bind p next).closings d = p.closings d ++ match p.run d with
      | .ok a d' => (next a).closings d'
      | .error _ _ => [] := by rw [closings]

theorem closings_attempt (p : Program α) (handler : Failure → Program α) (d : Document) :
    (attempt p handler).closings d = p.closings d ++ match p.run d with
      | .ok _ _ => []
      | .error e d' => (handler e).closings d' := by rw [closings]

theorem closings_batched (body : Program α) (d : Document) :
    (batched body).closings d = if d.batch.isSome then []
      else body.closings d.opened ++ match body.run d.opened with
        | .ok _ d' => Closing.ofDocument d'
        | .error _ _ => [] := by rw [closings]

theorem after_of_ok {p : Program α} {d d' : Document} {a : α} (h : p.run d = .ok a d') :
    p.after d = d' := by
  unfold after
  rw [h]

theorem after_of_error {p : Program α} {d d' : Document} {e : Failure} (h : p.run d = .error e d') :
    p.after d = d' := by
  unfold after
  rw [h]

theorem after_look (l : Looking α) (d : Document) : (look l).after d = d := by
  unfold after
  rw [run_look]
  cases l d <;> rfl

theorem after_bind (p : Program α) (next : α → Program β) (d : Document) :
    (bind p next).after d = match p.run d with
      | .ok a d' => (next a).after d'
      | .error _ d' => d' := by
  unfold after
  rw [run_bind]
  cases p.run d <;> rfl

theorem after_attempt (p : Program α) (handler : Failure → Program α) (d : Document) :
    (attempt p handler).after d = match p.run d with
      | .ok _ d' => d'
      | .error e d' => (handler e).after d' := by
  unfold after
  rw [run_attempt]
  cases p.run d <;> rfl

end

/-! ## The library's operations as programs -/

section Operations

variable {α : Type}

def pure (a : α) : Program α := look (fun _ => .ok a)

def fail (e : Failure) : Program α := look (fun _ => .error e)

def editing (body : Program α) : Program α :=
  bind (look read) fun d =>
    if d.batch.isSome then body else bind (batched body) fun r => pure r.1

def record (start stop : Int) (text : Text) (ahead : Bool) : Program Unit :=
  editing (add start stop text ahead)

def insertAtTop (text : Text) : Program Unit :=
  if text.isEmpty then pure ()
  else bind (look read) fun d => record d.top d.top (text ++ [.char '\n']) true

def replace (h : Handle) (text : Text) : Program Unit :=
  bind (look h.node) fun n => record n.start n.stop text false

def remove (h : Handle) : Program Unit :=
  bind (look h.node) fun n => bind (look read) fun d => bind (look h.isStatement) fun statement =>
    let range := if statement then Handle.lineExtent d n else (n.start, n.stop)
    record range.1 range.2 [] false

def insertBefore (h : Handle) (text : Text) : Program Unit :=
  bind (look h.node) fun n => bind (look read) fun d =>
    let first := d.lineStart n.start
    let indent : Text := .ofString (d.indentation n.start)
    if (d.source.extract first n.start).toList.all isBlankByte then
      record first first (indent ++ text ++ [.char '\n']) false
    else record n.start n.start (text ++ .char '\n' :: indent) false

def roundsFrom (round : Program Unit) (limit : Int) : Nat → Nat → Program Nat
  | 0, _ => fail (.transformation s!"Rewrite did not settle after {limit} rounds")
  | rounds + 1, total =>
    bind (batched round) fun r =>
      if r.2.deferred.isEmpty then pure (total + r.2.applied)
      else roundsFrom round limit rounds (total + r.2.applied)

def untilStable (round : Program Unit) (limit : Int) : Program Nat :=
  roundsFrom round limit limit.toNat 0

theorem run_pure (a : α) : (pure a).run = (Pure.pure a : Editing α) := by
  funext d
  exact run_look _ d

theorem run_fail (e : Failure) : (fail e : Program α).run = throw e := by
  funext d
  exact run_look _ d

theorem run_editing (body : Program α) : (editing body).run = Document.editing body.run := by
  funext d
  change (if d.batch.isSome then body else bind (batched body) fun r => pure r.1).run d =
    (if d.batch.isSome then body.run else Document.batched body.run >>= fun r => Pure.pure r.1) d
  cases d.batch.isSome with
  | true => rfl
  | false =>
    simp only [Bool.false_eq_true, if_false, run_bind, Document.bind_apply, run_pure]
    rfl

theorem run_record (start stop : Int) (text : Text) (ahead : Bool) :
    (record start stop text ahead).run = Document.recordEdit start stop text ahead :=
  run_editing _

theorem run_insertAtTop (text : Text) : (insertAtTop text).run = Document.insertAtTop text := by
  unfold insertAtTop Document.insertAtTop
  cases text.isEmpty with
  | true => exact run_pure ()
  | false =>
    funext d
    exact congrFun (run_record d.top d.top _ true) d

theorem run_replace (h : Handle) (text : Text) : (replace h text).run = h.replaceWith text := by
  funext d
  unfold replace Handle.replaceWith
  simp only [run_bind, run_record, Document.bind_apply]
  rfl

theorem run_remove (h : Handle) : (remove h).run = h.remove := by
  funext d
  unfold remove Handle.remove
  simp only [run_bind, run_record, Document.bind_apply]
  rfl

theorem run_insertBefore (h : Handle) (text : Text) :
    (insertBefore h text).run = h.insertBefore text := by
  funext d
  unfold insertBefore Handle.insertBefore
  simp only [run_bind, apply_ite run, run_record, Document.bind_apply]
  rfl

theorem run_untilStable (round : Program Unit) (limit : Int) :
    (untilStable round limit).run = Document.untilStable round.run limit := by
  have hr : ∀ rounds total, (roundsFrom round limit rounds total).run =
      Document.roundsFrom round.run limit rounds total := by
    intro rounds
    induction rounds with
    | zero => intro total; exact run_fail _
    | succ rounds ih =>
      intro total
      funext d
      unfold roundsFrom Document.roundsFrom
      simp only [run_bind, Document.bind_apply, apply_ite run, run_pure, ih]
      rfl
  exact hr _ _

end Operations

/-! ## What a run changes -/

variable {α : Type}

/-- What every step keeps, a run keeps: the relation holds between a document, the batches that
are closed and the document that is left. -/
theorem run_keeps {R : Document → List Closing → Document → Prop}
    (refl : ∀ d, R d [] d)
    (trans : ∀ {d d' d'' cs cs'}, R d cs d' → R d' cs' d'' → R d (cs ++ cs') d'')
    (add : ∀ start stop text ahead d, R d [] ((add start stop text ahead).after d))
    (block : ∀ {β : Type} (body : Program β) d, (∀ d, R d (body.closings d) (body.after d)) →
      R d ((batched body).closings d) ((batched body).after d))
    (p : Program α) (d : Document) : R d (p.closings d) (p.after d) := by
  induction p generalizing d with
  | look l =>
    rw [after_look]
    exact refl d
  | bind p next ihp ihn =>
    have hp := ihp d
    rw [after_bind, closings_bind]
    cases hd : p.run d with
    | error e d' =>
      rw [after_of_error hd] at hp
      rw [List.append_nil]
      exact hp
    | ok a d' =>
      rw [after_of_ok hd] at hp
      exact trans hp (ihn a d')
  | attempt p handler ihp ihh =>
    have hp := ihp d
    rw [after_attempt, closings_attempt]
    cases hd : p.run d with
    | ok a d' =>
      rw [after_of_ok hd] at hp
      rw [List.append_nil]
      exact hp
    | error e d' =>
      rw [after_of_error hd] at hp
      exact trans hp (ihh e d')
  | add start stop text ahead => exact add start stop text ahead d
  | batched body ih => exact block body d ih

theorem after_add_of_open {d : Document} {b : Batch} (h : d.batch = some b) (start stop : Int)
    (text : Text) (ahead : Bool) :
    ∃ b', (add start stop text ahead).after d = { d with batch := some b' } ∧ b.Continues b' := by
  unfold after
  rw [run_add_of_open h]
  cases ha : b.add d.generation d.source.size start stop text ahead with
  | error e =>
    refine ⟨b, ?_, .refl b⟩
    rw [← h]
  | ok b' => exact ⟨b', rfl, Batch.continues_of_add ha⟩

/-- In a block nothing changes but the batch, whatever the program does. -/
theorem after_of_open (p : Program α) {d : Document} {b : Batch} (h : d.batch = some b) :
    ∃ b', p.after d = { d with batch := some b' } ∧ b.Continues b' := by
  refine run_keeps (R := fun d _ d' => ∀ b, d.batch = some b →
    ∃ b', d' = { d with batch := some b' } ∧ b.Continues b') ?_ ?_ ?_ ?_ p d b h
  · intro d b h
    exact ⟨b, by rw [← h], .refl b⟩
  · intro d d' d'' cs cs' h₁ h₂ b h
    obtain ⟨b₁, rfl, hb₁⟩ := h₁ b h
    obtain ⟨b₂, rfl, hb₂⟩ := h₂ b₁ rfl
    exact ⟨b₂, rfl, hb₁.trans hb₂⟩
  · intro start stop text ahead d b h
    exact after_add_of_open h start stop text ahead
  · intro β body d _ b h
    refine ⟨b, ?_, .refl b⟩
    rw [← h]
    exact after_of_error (run_batched_of_open (by rw [h]; rfl) body)

/-- What a block records lies inside the text. -/
theorem inside_of_open (p : Program α) {d : Document} {b : Batch} (h : d.batch = some b)
    (hin : ∀ e ∈ b.edits, e.start ≤ e.stop ∧ e.stop ≤ d.source.size) :
    ∃ b', p.after d = { d with batch := some b' } ∧
      ∀ e ∈ b'.edits, e.start ≤ e.stop ∧ e.stop ≤ d.source.size := by
  refine run_keeps (R := fun d _ d' => ∀ b, d.batch = some b →
    (∀ e ∈ b.edits, e.start ≤ e.stop ∧ e.stop ≤ d.source.size) →
    ∃ b', d' = { d with batch := some b' } ∧
      ∀ e ∈ b'.edits, e.start ≤ e.stop ∧ e.stop ≤ d.source.size) ?_ ?_ ?_ ?_ p d b h hin
  · intro d b h hin
    exact ⟨b, by rw [← h], hin⟩
  · intro d d' d'' cs cs' h₁ h₂ b h hin
    obtain ⟨b₁, rfl, hin₁⟩ := h₁ b h hin
    obtain ⟨b₂, rfl, hin₂⟩ := h₂ b₁ rfl hin₁
    exact ⟨b₂, rfl, hin₂⟩
  · intro start stop text ahead d b h hin
    unfold after
    rw [run_add_of_open h]
    cases ha : b.add d.generation d.source.size start stop text ahead with
    | error e => exact ⟨b, by rw [← h], hin⟩
    | ok b' =>
      refine ⟨b', rfl, ?_⟩
      rcases Batch.add_inside ha with rfl | ⟨-, new, hle, hsize, rfl⟩
      · exact hin
      · intro e he
        rcases List.mem_append.mp he with hold | hnew
        · exact hin e hold
        · rw [List.mem_singleton.mp hnew]
          exact ⟨hle, hsize⟩
  · intro β body d _ b h hin
    refine ⟨b, ?_, hin⟩
    rw [← h]
    exact after_of_error (run_batched_of_open (by rw [h]; rfl) body)

/-- In a block no batch is closed. -/
theorem closings_of_open (p : Program α) {d : Document} (h : d.batch.isSome) :
    p.closings d = [] := by
  refine (run_keeps (R := fun d cs d' => d.batch.isSome → cs = [] ∧ d'.batch.isSome)
    ?_ ?_ ?_ ?_ p d h).1
  · intro d h
    exact ⟨rfl, h⟩
  · intro d d' d'' cs cs' h₁ h₂ h
    obtain ⟨rfl, h⟩ := h₁ h
    exact h₂ h
  · intro start stop text ahead d h
    obtain ⟨b, hb⟩ := Option.isSome_iff_exists.mp h
    obtain ⟨b', h', -⟩ := after_add_of_open hb start stop text ahead
    exact ⟨rfl, by rw [h']; rfl⟩
  · intro β body d _ h
    rw [after_of_error (run_batched_of_open h body), closings_batched, if_pos h]
    exact ⟨rfl, h⟩

/-- A block on its own ends in one of four ways: its body fails; nothing was recorded; the batch
is applied; or its outcome does not parse, and the document is left as the block found it. -/
theorem batched_cases (body : Program α) {d : Document} (h : d.batch = none) :
    (∃ e, (∃ d', body.run d.opened = .error e d') ∧ (batched body).run d = .error e d ∧
      (batched body).closings d = []) ∨
    ∃ a b, body.run d.opened = .ok a { d with batch := some b } ∧
      (batched body).closings d = [⟨d, b⟩] ∧ (Batch.open' d.generation).Continues b ∧
      ((b.edits = [] ∧ (batched body).run d = .ok (a, { b with committed := true }) d) ∨
        (b.edits ≠ [] ∧ ∃ root, d.read (b.outcome d.source) = .ok root ∧
          (batched body).run d = .ok (a, b.spent)
            { d with source := b.outcome d.source, root := root, generation := d.generation + 1 }) ∨
        (b.edits ≠ [] ∧ ∃ place snippet, d.read (b.outcome d.source) = .error place ∧
          (batched body).run d = .error (.invalidEdit place snippet) d)) := by
  obtain ⟨b, hb, hcontinues⟩ := after_of_open body (d := d.opened) rfl
  have hclosed : Document.closed { d.opened with batch := some b } = d := by
    unfold Document.closed Document.opened
    rw [← h]
  have hn : (batched body).closings d = match body.run d.opened with
      | .ok _ d' => Closing.ofDocument d'
      | .error _ _ => [] := by
    rw [closings_batched, h, if_neg (by simp), closings_of_open body (d := d.opened) rfl, List.nil_append]
  have hr : (batched body).run d = _ := Document.batched_of_closed body.run h
  cases hbody : body.run d.opened with
  | error e d' =>
    rw [after_of_error hbody] at hb
    subst hb
    rw [hbody] at hn hr
    refine .inl ⟨e, ⟨_, rfl⟩, ?_, hn⟩
    rw [hr]
    exact congrArg _ hclosed
  | ok a d' =>
    rw [after_of_ok hbody] at hb
    subst hb
    rw [hbody] at hn hr
    have hc : b.committed = false := hcontinues.committed
    refine .inr ⟨a, b, rfl, ?_, hcontinues, ?_⟩
    · rw [hn]
      simp only [Closing.ofDocument, Option.map_some, Option.toList_some, hclosed]
    simp only [Document.closeBatch_apply, hclosed] at hr
    rw [hr]
    rcases Document.commit_cases d b with ⟨ht, -⟩ | ⟨-, he, hcm⟩ | ⟨-, he, root, hroot, hcm⟩ |
      ⟨-, he, place, snippet, hplace, hcm⟩
    · rw [hc] at ht
      cases ht
    · exact .inl ⟨he, by rw [hcm]⟩
    · exact .inr (.inl ⟨he, root, hroot, by rw [hcm]⟩)
    · exact .inr (.inr ⟨he, place, snippet, hplace, by rw [hcm]⟩)

/-- What recording and closing keep, a run keeps. A batch that is closed leaves the document alone,
or its outcome parses and takes the place of the text. -/
theorem run_closes {R : Document → List Closing → Document → Prop}
    (refl : ∀ d, R d [] d)
    (trans : ∀ {d d' d'' cs cs'}, R d cs d' → R d' cs' d'' → R d (cs ++ cs') d'')
    (recorded : ∀ {d : Document} {b : Batch} b', d.batch = some b → b.Continues b' →
      R d [] { d with batch := some b' })
    (idle : ∀ {d : Document} {b : Batch}, d.batch = none →
      (b.edits = [] ∨ ∃ place, d.read (b.outcome d.source) = .error place) → R d [⟨d, b⟩] d)
    (changed : ∀ {d : Document} {b : Batch} {root : Node}, d.batch = none → b.committed = false →
      b.edits ≠ [] → d.read (b.outcome d.source) = .ok root → R d [⟨d, b⟩]
        { d with source := b.outcome d.source, root := root, generation := d.generation + 1 })
    (p : Program α) (d : Document) : R d (p.closings d) (p.after d) := by
  refine run_keeps refl trans ?_ ?_ p d
  · intro start stop text ahead d
    cases h : d.batch with
    | none =>
      rw [after_of_error (run_add_of_closed h start stop text ahead)]
      exact refl d
    | some b =>
      obtain ⟨b', hd, hb⟩ := after_add_of_open h start stop text ahead
      rw [hd]
      exact recorded b' h hb
  · intro β body d _
    cases h : d.batch with
    | some b =>
      have ho : d.batch.isSome := by rw [h]; rfl
      rw [after_of_error (run_batched_of_open ho body), closings_of_open _ ho]
      exact refl d
    | none =>
      rcases batched_cases body h with ⟨e, -, hr, hc⟩ | ⟨a, b, -, hc, hb, ⟨he, hr⟩ |
        ⟨he, root, hroot, hr⟩ | ⟨he, place, snippet, hplace, hr⟩⟩
      · rw [after_of_error hr, hc]
        exact refl d
      · rw [after_of_ok hr, hc]
        exact idle h (.inl he)
      · rw [after_of_ok hr, hc]
        exact changed h hb.committed he hroot
      · rw [after_of_error hr, hc]
        exact idle h (.inr ⟨place, hplace⟩)

/-- Outside blocks a run closes what it opens. -/
theorem after_of_closed (p : Program α) {d : Document} (h : d.batch = none) :
    (p.after d).batch = none := by
  refine run_closes (R := fun d _ d' => d.batch = none → d'.batch = none) ?_ ?_ ?_ ?_ ?_ p d h
  · exact fun d h => h
  · exact fun h₁ h₂ h => h₂ (h₁ h)
  · intro d b b' hb _ h
    rw [hb] at h
    cases h
  · exact fun h _ _ => h
  · exact fun h _ _ _ _ => h

end Program

end TestMigration
