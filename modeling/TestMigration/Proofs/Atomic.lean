import TestMigration.Proofs.Program

/-! Every reachable document is the parse of its text, and its generation counts the commits that
changed it. Nothing that fails leaves a change behind: the batch that a failing operation opened is
gone and the text is the one that the batch was opened on. All of it holds for any reader of the
text; what a script is plays no part. -/

namespace TestMigration

open Script (Node Location)

namespace Document

/-- The documents differ in their open batches at most. -/
def SameText (a b : Document) : Prop :=
  a.source = b.source ∧ a.root = b.root ∧ a.generation = b.generation

theorem SameText.refl (d : Document) : SameText d d := ⟨rfl, rfl, rfl⟩

/-- The tree is what `read` makes of the text, and as many commits have changed the document. -/
structure Sound (read : ByteArray → Except Location Node) (commits : Nat) (d : Document) : Prop where
  reads : d.read = read
  parses : read d.source = .ok d.root
  generation : d.generation = commits

theorem sound_of_ofBytes {path : Option String} {read : ByteArray → Except Location Node}
    {source : ByteArray} {d : Document} (h : ofBytes path read source = .ok d) :
    d.Sound read 0 ∧ d.batch = none := by
  unfold ofBytes at h
  cases hr : read source with
  | error place =>
    rw [hr] at h
    cases h
  | ok root =>
    rw [hr] at h
    cases h
    exact ⟨⟨rfl, hr, rfl⟩, rfl⟩

/-- A computation that leaves the text alone when it fails. -/
def Atomic {α : Type} (m : Editing α) : Prop :=
  ∀ d e d', m d = .error e d' → d'.SameText d

theorem atomic_look_bind {α β : Type} (l : Looking α) {next : α → Editing β}
    (h : ∀ a, Atomic (next a)) : Atomic (looking l >>= next) := by
  intro d e d' hm
  rw [bind_apply, looking_apply] at hm
  cases hl : l d with
  | error e' =>
    rw [hl] at hm
    cases hm
    exact .refl d
  | ok a =>
    rw [hl] at hm
    exact h a d e d' hm

end Document

namespace Closing

theorem counts_of_parses {d : Document} {b : Batch} {root : Node} (hb : b.committed = false)
    (he : b.edits ≠ []) (hr : d.read (b.outcome d.source) = .ok root) : counts ⟨d, b⟩ := by
  have hc := Document.commit_eq (d := d) hb he
  rw [Document.replaceSource_of_ok hr] at hc
  simp [counts, he, hc, Except.isOk, Except.toBool]

theorem not_counts {d : Document} {b : Batch}
    (h : b.edits = [] ∨ ∃ place, d.read (b.outcome d.source) = .error place) : ¬ counts ⟨d, b⟩ := by
  rcases h with he | ⟨place, hp⟩
  · simp [counts, he]
  · rcases Document.commit_cases d b with ⟨-, hc⟩ | ⟨-, he, hc⟩ | ⟨-, -, root, hr, -⟩ |
      ⟨-, -, place, snippet, -, hc⟩
    · simp [counts, hc, Except.isOk, Except.toBool]
    · simp [counts, he]
    · rw [hp] at hr
      cases hr
    · simp [counts, hc, Except.isOk, Except.toBool]

end Closing

namespace Program

open Document

variable {α : Type}

theorem sameText_of_open (p : Program α) {d : Document} (h : d.batch.isSome) :
    (p.after d).SameText d := by
  obtain ⟨b, hb⟩ := Option.isSome_iff_exists.mp h
  obtain ⟨b', hd, -⟩ := after_of_open p hb
  rw [hd]
  exact ⟨rfl, rfl, rfl⟩

/-! ## What a run keeps -/

theorem after_sound (p : Program α) {d : Document} {read : ByteArray → Except Location Node}
    {n : Nat} (hs : d.Sound read n) : (p.after d).Sound read (n + p.commits d) := by
  refine run_closes (R := fun d cs d' => ∀ n, d.Sound read n →
    d'.Sound read (n + cs.countP Closing.counts)) ?_ ?_ ?_ ?_ ?_ p d n hs
  · exact fun d n hs => hs
  · intro d d' d'' cs cs' h₁ h₂ n hs
    rw [List.countP_append, ← Nat.add_assoc]
    exact h₂ _ (h₁ n hs)
  · exact fun b' _ _ n hs => ⟨hs.reads, hs.parses, hs.generation⟩
  · intro d b _ hidle n hs
    rw [List.countP_cons_of_neg (Closing.not_counts hidle)]
    exact hs
  · intro d b root _ hb he hroot n hs
    rw [List.countP_cons_of_pos (Closing.counts_of_parses hb he hroot)]
    exact ⟨hs.reads, by rw [← hs.reads]; exact hroot, congrArg (· + 1) hs.generation⟩

/-! ## Failures -/

theorem atomic_batched (body : Program α) : Atomic (Document.batched body.run) := by
  intro d e d' hm
  cases h : d.batch with
  | some b =>
    rw [Document.batched_of_open _ (by rw [h]; rfl)] at hm
    cases hm
    exact .refl d
  | none =>
    have hm : (batched body).run d = .error e d' := hm
    rcases batched_cases body h with ⟨e', -, hr, -⟩ | ⟨a, b, -, -, -, ⟨-, hr⟩ | ⟨-, root, -, hr⟩ |
      ⟨-, place, snippet, -, hr⟩⟩
    · rw [hr] at hm
      cases hm
      exact .refl d
    · rw [hr] at hm
      cases hm
    · rw [hr] at hm
      cases hm
    · rw [hr] at hm
      cases hm
      exact .refl d

theorem atomic_editing (body : Program α) : Atomic (Document.editing body.run) := by
  intro d e d' hm
  unfold Document.editing at hm
  rw [Document.bind_apply, Document.get_apply] at hm
  dsimp only at hm
  cases h : d.batch.isSome with
  | true =>
    rw [h, if_pos rfl] at hm
    rw [← after_of_error hm]
    exact sameText_of_open body h
  | false =>
    rw [h, if_neg (by simp), Document.bind_apply] at hm
    cases hb : Document.batched body.run d with
    | ok r d'' =>
      rw [hb] at hm
      cases hm
    | error e' d'' =>
      rw [hb] at hm
      cases hm
      exact atomic_batched body d e d' hb

theorem atomic_record (start stop : Int) (text : Text) (ahead : Bool) :
    Atomic (Document.recordEdit start stop text ahead) := by
  rw [← run_record]
  unfold record
  rw [run_editing]
  exact atomic_editing _

/-- `count` rounds one after the other, each of which succeeds and leaves edits over. -/
inductive Rounds (round : Program Unit) : Nat → Document → Document → Prop where
  | none {d : Document} : Rounds round 0 d d
  | more {d d' d'' : Document} {count : Nat} {b : Batch}
      (first : Document.batched round.run d = .ok ((), b) d') (left : b.deferred ≠ [])
      (rest : Rounds round count d' d'') : Rounds round (count + 1) d d''

theorem roundsFrom_fails (round : Program Unit) (limit : Int) (rounds total : Nat)
    {d d' : Document} {e : Failure}
    (h : Document.roundsFrom round.run limit rounds total d = .error e d') :
    ∃ count last, Rounds round count d last ∧ d'.SameText last ∧
      ((count < rounds ∧ Document.batched round.run last = .error e d') ∨
        (count = rounds ∧ d' = last ∧
          e = .transformation s!"Rewrite did not settle after {limit} rounds")) := by
  induction rounds generalizing total d with
  | zero =>
    cases h
    exact ⟨0, _, .none, .refl _, .inr ⟨rfl, rfl, rfl⟩⟩
  | succ rounds ih =>
    unfold Document.roundsFrom at h
    rw [Document.bind_apply] at h
    cases hb : Document.batched round.run d with
    | error e' d'' =>
      rw [hb] at h
      cases h
      exact ⟨0, d, .none, atomic_batched round d e d' hb, .inl ⟨Nat.zero_lt_succ _, hb⟩⟩
    | ok r d'' =>
      obtain ⟨⟨⟩, b⟩ := r
      rw [hb] at h
      dsimp only at h
      split at h
      · cases h
      · rename_i hleft
        obtain ⟨count, last, hrounds, hsame, hend⟩ := ih _ h
        refine ⟨count + 1, last, .more hb (by simpa using hleft) hrounds, hsame, ?_⟩
        rcases hend with ⟨hlt, hlast⟩ | ⟨heq, hlast, he⟩
        · exact .inl ⟨Nat.succ_lt_succ hlt, hlast⟩
        · exact .inr ⟨congrArg (· + 1) heq, hlast, he⟩

end Program

namespace Document

theorem commit_spends (d : Document) (b : Batch) : (d.commit b).2.1.committed = true := by
  rcases commit_cases d b with ⟨hb, h⟩ | ⟨-, -, h⟩ | ⟨-, -, root, -, h⟩ | ⟨-, -, place, snippet, -, h⟩
  · rw [h]
    exact hb
  · rw [h]
  · rw [h]
    rfl
  · rw [h]
    rfl

theorem commit_fails {d d' : Document} {b b' : Batch} {e : Failure}
    (h : d.commit b = (.error e, b', d')) : d' = d := by
  rcases commit_cases d b with ⟨-, hc⟩ | ⟨-, -, hc⟩ | ⟨-, -, root, -, hc⟩ |
    ⟨-, -, place, snippet, -, hc⟩
  all_goals
    rw [hc] at h
    cases h
  all_goals rfl

theorem commit_of_committed (d : Document) {b : Batch} (h : b.committed = true) :
    d.commit b = (.error (.transformation "Edit batch already committed"), b, d) := by
  unfold commit
  rw [if_pos h]

end Document

/-! ## The reachable documents -/

/-- What applies its edits in one batch: in the open one, or in one of its own. -/
inductive Operation : {α : Type} → Editing α → Prop where
  | record (start stop : Int) (text : Text) (ahead : Bool) :
      Operation (Document.recordEdit start stop text ahead)
  | insertAtTop (text : Text) : Operation (Document.insertAtTop text)
  | replace (h : Handle) (text : Text) : Operation (h.replaceWith text)
  | remove (h : Handle) : Operation h.remove
  | insertBefore (h : Handle) (text : Text) : Operation (h.insertBefore text)
  | batched {α : Type} (body : Program α) : Operation (Document.batched body.run)
  | editing {α : Type} (body : Program α) : Operation (Document.editing body.run)

theorem Operation.atomic {α : Type} {m : Editing α} (h : Operation m) : Document.Atomic m := by
  cases h with
  | record start stop text ahead => exact Program.atomic_record start stop text ahead
  | insertAtTop text =>
    unfold Document.insertAtTop
    cases text.isEmpty with
    | true => exact fun d e d' hm => by cases hm
    | false =>
      exact Document.atomic_look_bind read fun d => Program.atomic_record _ _ _ _
  | replace h text =>
    exact Document.atomic_look_bind h.node fun n => Program.atomic_record _ _ _ _
  | remove h =>
    exact Document.atomic_look_bind h.node fun n => Document.atomic_look_bind read fun d =>
      Document.atomic_look_bind h.isStatement fun statement => Program.atomic_record _ _ _ _
  | insertBefore h text =>
    refine Document.atomic_look_bind h.node fun n => Document.atomic_look_bind read fun d => ?_
    dsimp only
    split
    · exact Program.atomic_record _ _ _ _
    · exact Program.atomic_record _ _ _ _
  | batched body => exact Program.atomic_batched body
  | editing body => exact Program.atomic_editing body

/-- Programs can do whatever the operations do. -/
theorem Operation.isProgram {α : Type} {m : Editing α} (h : Operation m) :
    ∃ p : Program α, p.run = m := by
  cases h with
  | record start stop text ahead => exact ⟨_, Program.run_record start stop text ahead⟩
  | insertAtTop text => exact ⟨_, Program.run_insertAtTop text⟩
  | replace h text => exact ⟨_, Program.run_replace h text⟩
  | remove h => exact ⟨_, Program.run_remove h⟩
  | insertBefore h text => exact ⟨_, Program.run_insertBefore h text⟩
  | batched body => exact ⟨.batched body, rfl⟩
  | editing body => exact ⟨_, Program.run_editing body⟩

/-- The documents that programs come to from a first one, outside blocks and in them, each with
the number of commits of batches with edits that succeeded on the way. -/
inductive Reachable (first : Document) : Nat → Document → Prop where
  | first : Reachable first 0 first
  | run {commits : Nat} {d : Document} {α : Type} (h : Reachable first commits d)
      (p : Program α) : Reachable first (commits + p.commits d) (p.after d)
  | enter {commits : Nat} {d : Document} (h : Reachable first commits d) (closed : d.batch = none) :
      Reachable first commits d.opened

/-- What holds of a document at any time, of whatever is done to it next and of the batches that
are applied to it. -/
structure Kept (read : ByteArray → Except Location Node) (commits : Nat) (d : Document) : Prop where
  parses : read d.source = .ok d.root
  generation : d.generation = commits
  /-- Outside a block every program closes the batches it opens, also when it fails. -/
  closes : d.batch = none → ∀ {α : Type} (p : Program α), (p.after d).batch = none
  /-- In a block nothing changes the text before the block's end. -/
  block : d.batch.isSome → ∀ {α : Type} (p : Program α), (p.after d).SameText d
  nested : d.batch.isSome → ∀ {α : Type} (body : Program α),
    Document.batched body.run d = .error (.transformation "Edit batches cannot be nested") d
  atomic : ∀ {α : Type} {m : Editing α}, Operation m → ∀ {e : Failure} {d' : Document},
    m d = .error e d' → d'.SameText d
  /-- Rounds that fail keep what the rounds before them did. -/
  rounds : ∀ (round : Program Unit) (limit : Int) {e : Failure} {d' : Document},
    Document.untilStable round.run limit d = .error e d' →
      ∃ count last, Program.Rounds round count d last ∧ d'.SameText last ∧
        ((count < limit.toNat ∧ Document.batched round.run last = .error e d') ∨
          (count = limit.toNat ∧ d' = last ∧
            e = .transformation s!"Rewrite did not settle after {limit} rounds"))
  commit : ∀ {b b' : Batch} {e : Failure} {d' : Document},
    d.commit b = (.error e, b', d') → d' = d
  /-- A batch is applied once, also when its outcome does not parse. -/
  again : ∀ (b : Batch) (later : Document), later.commit (d.commit b).2.1 =
    (.error (.transformation "Edit batch already committed"), (d.commit b).2.1, later)

theorem Reachable.sound {read : ByteArray → Except Location Node} {first d : Document}
    {commits : Nat} (hf : first.Sound read 0) (h : Reachable first commits d) :
    d.Sound read commits := by
  induction h with
  | first => exact hf
  | run h p ih => exact p.after_sound ih
  | enter h closed ih => exact ⟨ih.reads, ih.parses, ih.generation⟩

/-- Whatever is done to a document that was accepted, it stays the parse of its text, counts its
commits and never keeps half of what failed. The programs leave no operation out. -/
theorem reachable_kept {path : Option String} {read : ByteArray → Except Location Node}
    {source : ByteArray} {first d : Document} {commits : Nat}
    (accepted : Document.ofBytes path read source = .ok first)
    (h : Reachable first commits d) :
    Kept read commits d ∧
      (∀ {α : Type} {m : Editing α}, Operation m → ∃ p : Program α, p.run = m) ∧
      ∀ (round : Program Unit) (limit : Int),
        ∃ p : Program Nat, p.run = Document.untilStable round.run limit := by
  have hs := h.sound (Document.sound_of_ofBytes accepted).1
  refine ⟨?_, fun ho => ho.isProgram, fun round limit => ⟨_, round.run_untilStable limit⟩⟩
  exact {
    parses := hs.parses
    generation := hs.generation
    closes := fun hb _ p => p.after_of_closed hb
    block := fun hb _ p => p.sameText_of_open hb
    nested := fun hb _ body => Document.batched_of_open body.run hb
    atomic := fun ho _ _ hm => ho.atomic d _ _ hm
    rounds := fun round limit _ _ hm => round.roundsFrom_fails limit limit.toNat 0 hm
    commit := Document.commit_fails
    again := fun b later => Document.commit_of_committed later (Document.commit_spends d b) }

/-- A text that every outcome parses like, after an edit outside a block. -/
theorem reachable_kept_after_edit :
    let root : Node := .mk none .program 0 0 []
    let first : Document := ⟨none, fun _ => .ok root, .empty, root, 0, none⟩
    Kept (fun _ => .ok root) 1 ((Program.record 0 0 "a" false).after first) := by
  intro root first
  have hn : (Program.record 0 0 "a" false).commits first = 1 := by decide +kernel
  have accepted : Document.ofBytes none (fun _ => .ok root) .empty = .ok first := rfl
  have h : Reachable first _ _ := .run .first (Program.record 0 0 "a" false)
  rw [hn] at h
  exact (reachable_kept accepted h).1

end TestMigration
