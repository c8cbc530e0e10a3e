import TestMigration.Proofs.Atomic
import TestMigration.Proofs.Leaves
import TestMigration.Proofs.Splice

/-! Several batches on one document, in any order of their making, recording and closing. A batch
knows the generation it was made at and recording asks for it; closing does not. So what a batch
records always belongs to the text it was made for, and it is applied to that text as long as no
other batch has changed the document meanwhile. -/

namespace TestMigration

open Script (Node Location)

/-- A document in the hands of code that makes batches of it: every batch made so far, and which
of them collects for the block that is open. -/
structure Bench where
  document : Document
  batches : List Batch
  block : Option Nat

/-- Batches are named by the order of their making. A block makes a batch of its own; it is left
at its end, and abandoned where its body fails. -/
inductive Action where
  | make
  | add (i : Nat) (r : Request)
  | commit (i : Nat)
  | enter
  | leave
  | abandon

namespace Bench

def noBatch : Failure := .transformation "No edit batch is open"

def make (t : Bench) : Bench :=
  { t with batches := t.batches ++ [.open' t.document.generation] }

def add (t : Bench) (i : Nat) (r : Request) : Except Failure Unit × Bench :=
  match t.batches[i]? with
  | none => (.error noBatch, t)
  | some b =>
    match b.add t.document.generation t.document.source.size r.start r.stop r.text r.ahead with
    | .ok b => (.ok (), { t with batches := t.batches.set i b })
    | .error e => (.error e, t)

def commit (t : Bench) (i : Nat) : Except Failure Unit × Bench :=
  match t.batches[i]? with
  | none => (.error noBatch, t)
  | some b =>
    let r := t.document.commit b
    (r.1, { t with document := r.2.2, batches := t.batches.set i r.2.1 })

/-- One action: whether it raises, and what it leaves. -/
def step (t : Bench) : Action → Except Failure Unit × Bench
  | .make => (.ok (), t.make)
  | .add i r => t.add i r
  | .commit i => t.commit i
  | .enter =>
    if t.block.isSome then (.error (.transformation "Edit batches cannot be nested"), t)
    else (.ok (), { t.make with block := some t.batches.length })
  | .leave =>
    match t.block with
    | none => (.error noBatch, t)
    | some i => { t with block := none }.commit i
  | .abandon => (.ok (), { t with block := none })

/-- The actions of an interleaving, those that raise among them. -/
def run (t : Bench) (actions : List Action) : Bench := actions.foldl (fun t a => (t.step a).2) t

/-- The batch that an action closes. -/
def closes (t : Bench) : Action → Option Nat
  | .commit i => some i
  | .leave => t.block
  | _ => none

/-- Does the action change the document? -/
def changes (t : Bench) (a : Action) : Bool :=
  (t.closes a).any fun i => t.batches[i]?.any fun b => Closing.counts ⟨t.document, b⟩

/-- How many actions of an interleaving change the document. -/
def changed : Bench → List Action → Nat
  | _, [] => 0
  | t, a :: rest => (t.changes a).toNat + (t.step a).2.changed rest

@[simp] theorem run_nil (t : Bench) : t.run [] = t := rfl

@[simp] theorem run_cons (t : Bench) (a : Action) (rest : List Action) :
    t.run (a :: rest) = (t.step a).2.run rest := rfl

theorem run_append (t : Bench) (before after : List Action) :
    t.run (before ++ after) = (t.run before).run after := List.foldl_append

/-! ## One step -/

/-- Leaving a block is the commit of its batch. -/
theorem step_of_closes {t : Bench} {a : Action} {i : Nat} (h : t.closes a = some i) :
    ∃ block, t.step a = { t with block := block }.commit i := by
  cases a with
  | commit j =>
    cases h
    exact ⟨t.block, rfl⟩
  | leave =>
    refine ⟨none, ?_⟩
    have hb : t.block = some i := h
    simp only [step, hb]
  | _ => cases h

theorem commit_of_get {t : Bench} {i : Nat} {b : Batch} (hb : t.batches[i]? = some b) :
    t.commit i = ((t.document.commit b).1, { t with
      document := (t.document.commit b).2.2,
      batches := t.batches.set i (t.document.commit b).2.1 }) := by
  unfold commit
  rw [hb]

/-- A commit raises or has nothing to apply, and leaves the document; or it applies its edits to the
text in force. -/
theorem commit_cases {t : Bench} {i : Nat} {b : Batch} (hb : t.batches[i]? = some b) :
    (Closing.counts ⟨t.document, b⟩ = false ∧ (t.commit i).2.document = t.document ∧
      ((t.commit i).1 = .ok () → b.edits = [])) ∨
    (Closing.counts ⟨t.document, b⟩ = true ∧ (t.commit i).1 = .ok () ∧ b.edits ≠ [] ∧
      (t.commit i).2.document.source = b.outcome t.document.source ∧
      (t.commit i).2.document.generation = t.document.generation + 1) := by
  rw [commit_of_get hb]
  rcases Document.commit_cases t.document b with ⟨-, hc⟩ | ⟨-, he, hc⟩ | ⟨hn, he, root, hr, hc⟩ |
    ⟨-, -, place, snippet, hp, hc⟩
  · refine .inl ⟨?_, by rw [hc], ?_⟩
    · simp [Closing.counts, hc, Except.isOk, Except.toBool]
    · rw [hc]
      intro hok
      cases hok
  · exact .inl ⟨Bool.eq_false_iff.mpr (Closing.not_counts (.inl he)), by rw [hc], fun _ => he⟩
  · exact .inr ⟨Closing.counts_of_parses hn he hr, by rw [hc], he, by rw [hc], by rw [hc]⟩
  · refine .inl ⟨Bool.eq_false_iff.mpr (Closing.not_counts (.inr ⟨place, hp⟩)), by rw [hc], ?_⟩
    rw [hc]
    intro hok
    cases hok

theorem commit_batch (d : Document) (b : Batch) :
    (d.commit b).2.1.generation = b.generation ∧ (d.commit b).2.1.edits = b.edits := by
  rcases Document.commit_cases d b with ⟨-, hc⟩ | ⟨-, -, hc⟩ | ⟨-, -, root, -, hc⟩ |
    ⟨-, -, place, snippet, -, hc⟩ <;> rw [hc] <;> exact ⟨rfl, rfl⟩

/-- What an action makes of a batch: its generation stays, and an edit that comes to it is one of
the text in force, at that generation. -/
def Follows (d : Document) (b b' : Batch) : Prop :=
  b'.generation = b.generation ∧ ∀ e ∈ b'.edits,
    e ∈ b.edits ∨ b.generation = d.generation ∧ e.start ≤ e.stop ∧ e.stop ≤ d.source.size

theorem Follows.refl (d : Document) (b : Batch) : Follows d b b := ⟨rfl, fun _ he => .inl he⟩

theorem follows_set {d : Document} {batches : List Batch} {i k : Nat} {b c c' : Batch}
    (hb : batches[k]? = some b) (hc : batches[i]? = some c) (h : Follows d c c') :
    ∃ b', (batches.set i c')[k]? = some b' ∧ Follows d b b' := by
  by_cases hik : i = k
  · subst hik
    rw [hb] at hc
    cases hc
    exact ⟨c', by simp [List.getElem?_set_self' , hb], h⟩
  · exact ⟨b, by rw [List.getElem?_set_ne hik, hb], .refl d b⟩

theorem add_follows (t : Bench) (i : Nat) (r : Request) {k : Nat} {b : Batch}
    (hb : t.batches[k]? = some b) :
    (t.add i r).2.document = t.document ∧
      ∃ b', (t.add i r).2.batches[k]? = some b' ∧ Follows t.document b b' := by
  unfold add
  cases hc : t.batches[i]? with
  | none => exact ⟨rfl, b, hb, .refl _ b⟩
  | some c =>
    dsimp only
    cases ha : c.add t.document.generation t.document.source.size r.start r.stop r.text r.ahead with
    | error e => exact ⟨rfl, b, hb, .refl _ b⟩
    | ok c' =>
      refine ⟨rfl, follows_set hb hc ?_⟩
      rcases Batch.add_inside ha with rfl | ⟨hg, e, hle, hsize, rfl⟩
      · exact .refl _ c'
      · refine ⟨rfl, fun x hx => ?_⟩
        rcases List.mem_append.mp hx with hx | hx
        · exact .inl hx
        · cases List.mem_singleton.mp hx
          exact .inr ⟨hg, hle, hsize⟩

theorem commit_follows (t : Bench) (i : Nat) {k : Nat} {b : Batch} (hb : t.batches[k]? = some b) :
    ∃ b', (t.commit i).2.batches[k]? = some b' ∧ Follows t.document b b' := by
  cases hc : t.batches[i]? with
  | none =>
    unfold commit
    rw [hc]
    exact ⟨b, hb, .refl _ b⟩
  | some c =>
    rw [commit_of_get hc]
    obtain ⟨hg, he⟩ := commit_batch t.document c
    exact follows_set hb hc ⟨hg, fun x hx => .inl (he ▸ hx)⟩

theorem step_follows (t : Bench) (a : Action) {k : Nat} {b : Batch} (hb : t.batches[k]? = some b) :
    ∃ b', (t.step a).2.batches[k]? = some b' ∧ Follows t.document b b' := by
  have hmake : t.make.batches[k]? = some b :=
    (List.getElem?_append_left (List.getElem?_eq_some_iff.mp hb).1).trans hb
  cases a with
  | make => exact ⟨b, hmake, .refl _ b⟩
  | add i r => exact (add_follows t i r hb).2
  | commit i => exact commit_follows t i hb
  | enter =>
    cases ht : t.block with
    | none =>
      simp only [step, ht]
      exact ⟨b, hmake, .refl _ b⟩
    | some i =>
      simp only [step, ht]
      exact ⟨b, hb, .refl _ b⟩
  | leave =>
    cases ht : t.block with
    | none =>
      simp only [step, ht]
      exact ⟨b, hb, .refl _ b⟩
    | some i =>
      simp only [step, ht]
      exact commit_follows { t with block := none } i hb
  | abandon => exact ⟨b, hb, .refl _ b⟩

/-- Only a closing changes the document. -/
theorem step_of_not_closes {t : Bench} {a : Action} (h : t.closes a = none) :
    (t.step a).2.document = t.document := by
  cases a with
  | add i r =>
    cases hb : t.batches[i]? with
    | none => simp only [step, add, hb]
    | some b => exact (add_follows t i r hb).1
  | commit i => cases h
  | enter => cases hb : t.block <;> simp only [step, hb] <;> rfl
  | leave =>
    have hb : t.block = none := h
    simp only [step, hb]
  | _ => rfl

theorem step_document (t : Bench) (a : Action) :
    (t.changes a = false ∧ (t.step a).2.document = t.document) ∨
    (t.changes a = true ∧
      (t.step a).2.document.generation = t.document.generation + 1) := by
  unfold changes
  cases hc : t.closes a with
  | none => exact .inl ⟨rfl, step_of_not_closes hc⟩
  | some i =>
    obtain ⟨block, hs⟩ := step_of_closes hc
    rw [hs, Option.any_some]
    cases hb : t.batches[i]? with
    | none => exact .inl ⟨rfl, by simp only [commit, hb]⟩
    | some b =>
      rw [Option.any_some]
      rcases commit_cases (t := { t with block := block }) hb with ⟨h, hd, -⟩ | ⟨h, -, -, -, hg⟩
      · exact .inl ⟨h, hd⟩
      · exact .inr ⟨h, hg⟩

/-! ## A whole interleaving -/

/-- What stays true of a batch made for a document, after so many changes to it: the batch is of the
document's generation and so are its edits, and without a change that is the text in force. -/
structure Keeps (made : Document) (k changes : Nat) (t : Bench) : Prop where
  batch : ∃ b, t.batches[k]? = some b ∧ b.generation = made.generation ∧
    ∀ e ∈ b.edits, e.start ≤ e.stop ∧ e.stop ≤ made.source.size
  generation : t.document.generation = made.generation + changes
  source : changes = 0 → t.document.source = made.source

theorem Keeps.step {made : Document} {k n : Nat} {t : Bench} (h : Keeps made k n t) (a : Action) :
    Keeps made k (n + (t.changes a).toNat) (t.step a).2 := by
  obtain ⟨b, hb, hg, hin⟩ := h.batch
  obtain ⟨b', hb', hg', hin'⟩ := step_follows t a hb
  have hbatch : ∃ b, (t.step a).2.batches[k]? = some b ∧ b.generation = made.generation ∧
      ∀ e ∈ b.edits, e.start ≤ e.stop ∧ e.stop ≤ made.source.size := by
    refine ⟨b', hb', hg'.trans hg, fun e he => ?_⟩
    rcases hin' e he with he | ⟨hnow, hle, hsize⟩
    · exact hin e he
    · -- recorded now, so the generation is the batch's own and the text is the one it was made for
      have hn : n = 0 := by
        have := h.generation
        omega
      exact ⟨hle, h.source hn ▸ hsize⟩
  rcases step_document t a with ⟨hc, hd⟩ | ⟨hc, hnext⟩
  · rw [hc]
    exact ⟨hbatch, by rw [hd]; exact h.generation, by rw [hd]; exact h.source⟩
  · rw [hc]
    refine ⟨hbatch, ?_, nofun⟩
    rw [hnext, h.generation]
    rfl

theorem Keeps.run {made : Document} {k n : Nat} {t : Bench} (h : Keeps made k n t)
    (actions : List Action) : Keeps made k (n + t.changed actions) (t.run actions) := by
  induction actions generalizing t n with
  | nil => exact h
  | cons a rest ih =>
    rw [run_cons, changed, ← Nat.add_assoc]
    exact ih (h.step a)

/-- The action makes a batch: its number is that of the batches made before. -/
def Makes (t : Bench) (a : Action) : Prop := a = .make ∨ a = .enter ∧ t.block = none

theorem keeps_of_makes {t : Bench} {a : Action} (h : t.Makes a) :
    t.changes a = false ∧ Keeps t.document t.batches.length 0 (t.step a).2 := by
  have hmade : Keeps t.document t.batches.length 0 t.make :=
    ⟨⟨.open' t.document.generation, List.getElem?_concat_length, rfl, nofun⟩, rfl, fun _ => rfl⟩
  rcases h with rfl | ⟨rfl, hb⟩
  · exact ⟨rfl, hmade⟩
  · refine ⟨rfl, ?_⟩
    simp only [step, hb]
    exact ⟨hmade.batch, rfl, fun _ => rfl⟩

/-- A block that is open was open before, if no batch was closed but by leaving a block. -/
theorem step_block {t : Bench} {a : Action} {k : Nat} (hk : k < t.batches.length)
    (ha : ∀ i, a ≠ .commit i) (h : (t.step a).2.block = some k) :
    t.block = some k ∧ t.changes a = false := by
  cases a with
  | make => exact ⟨h, rfl⟩
  | add i r =>
    refine ⟨?_, rfl⟩
    simp only [step, add] at h
    split at h
    · exact h
    · split at h <;> exact h
  | commit i => exact absurd rfl (ha i)
  | enter =>
    cases ht : t.block with
    | none =>
      simp only [step, ht] at h
      have hlast : t.batches.length = k := Option.some.inj h
      omega
    | some i =>
      simp only [step, ht] at h
      exact ⟨ht ▸ h, rfl⟩
  | leave =>
    cases ht : t.block with
    | none =>
      simp only [step, ht] at h
      cases h
    | some i =>
      simp only [step, ht, commit] at h
      split at h <;> cases h
  | abandon => cases h

theorem changed_of_block {k : Nat} (actions : List Action) {t : Bench}
    (hk : k < t.batches.length) (ha : ∀ i, .commit i ∉ actions)
    (h : (t.run actions).block = some k) : t.block = some k ∧ t.changed actions = 0 := by
  induction actions generalizing t with
  | nil => exact ⟨h, rfl⟩
  | cons a rest ih =>
    obtain ⟨b', hb', -⟩ := step_follows t a (List.getElem?_eq_getElem hk)
    obtain ⟨hblock, hrest⟩ := ih (List.getElem?_eq_some_iff.mp hb').1
      (fun i hi => ha i (List.mem_cons_of_mem a hi)) h
    obtain ⟨hopen, hchanges⟩ := step_block hk (fun i hi => ha i (hi ▸ List.mem_cons_self)) hblock
    exact ⟨hopen, by rw [changed, hchanges, hrest]; rfl⟩

/-- A batch and its closing, whatever is done between the two. The edits are edits of the text that
the batch was made for. The closing raises or has none to apply, and leaves the document, or it
applies them to the text in force. That is the text they were recorded against as long as no other
batch has changed the document; in particular where the batch is a block's and batches are closed
by leaving blocks only. After a change the batch is applied to a later text all the same. -/
theorem made_then_closed (t : Bench) {begin finish : Action} {after : List Action}
    (hmakes : t.Makes begin)
    (hcloses : (t.run (begin :: after)).closes finish = some t.batches.length) :
    let now := t.run (begin :: after)
    let left := now.step finish
    let changes := t.changed (begin :: after)
    ∃ b, now.batches[t.batches.length]? = some b ∧ b.generation = t.document.generation ∧
      (∀ e ∈ b.edits, e.start ≤ e.stop ∧ e.stop ≤ t.document.source.size) ∧
      (left.2.document = now.document ∧ (left.1 = .ok () → b.edits = []) ∨
        left.1 = .ok () ∧ b.edits ≠ [] ∧
          left.2.document.source = b.outcome now.document.source) ∧
      now.document.generation = b.generation + changes ∧
      (changes = 0 → now.document.source = t.document.source) ∧
      (finish = .leave → (∀ i, .commit i ∉ after) → changes = 0) := by
  intro now left changes
  obtain ⟨hbegin, hkeeps⟩ := keeps_of_makes hmakes
  have hchanges : changes = (t.step begin).2.changed after := by
    simp only [changes, changed, hbegin, Bool.toNat_false, Nat.zero_add]
  have hnow : Keeps t.document t.batches.length changes now := by
    rw [hchanges, ← Nat.zero_add ((t.step begin).2.changed after)]
    exact hkeeps.run after
  obtain ⟨b, hb, hg, hin⟩ := hnow.batch
  refine ⟨b, hb, hg, hin, ?_, by rw [hg]; exact hnow.generation, hnow.source, ?_⟩
  · obtain ⟨block, hs⟩ := step_of_closes hcloses
    simp only [left, now, hs]
    rcases commit_cases (t := { now with block := block }) hb with ⟨-, hd, he⟩ | ⟨-, hok, he, hd, -⟩
    · exact .inl ⟨hd, he⟩
    · exact .inr ⟨hok, he, hd⟩
  · rintro rfl hblocks
    obtain ⟨c, hc, -⟩ := hkeeps.batch
    rw [hchanges]
    exact (changed_of_block after (List.getElem?_eq_some_iff.mp hc).1 hblocks hcloses).2

/-- A document with no batch made yet. -/
def ofDocument (d : Document) : Bench := ⟨d, [], none⟩

/-- A batch records a replacement, then a block puts a line above it. -/
def crossed : List Action :=
  [.make, .add 0 ⟨0, 3, .ofString "baz", false⟩,
    .enter, .add 1 ⟨0, 0, .ofString "// elsewhere\n", false⟩, .leave]

theorem made_then_closed_crossed :
    let t := ofDocument (anyText "foo();\nbar();\n")
    let now := t.run crossed
    t.Makes .make ∧ now.closes (.commit 0) = some t.batches.length ∧ t.changed crossed = 1 ∧
      ∃ b, now.batches[0]? = some b ∧ now.document.generation = b.generation + 1 := by
  intro t now
  have hmakes : t.Makes .make := .inl rfl
  have hcloses : (t.run (.make :: crossed.tail)).closes (.commit 0) = some t.batches.length := rfl
  have hchanged : t.changed crossed = 1 := by decide +kernel
  obtain ⟨b, hb, -, -, -, hg, -⟩ := made_then_closed t hmakes hcloses
  exact ⟨hmakes, hcloses, hchanged, b, hb, hchanged ▸ hg⟩

/-- A closing does not ask for the generation: the replacement is made of what another batch has
put at its offsets, and the outcome still parses. -/
theorem applied_to_later_text :
    ∃ d, Document.ofString none "foo();\nbar();\n" = .ok d ∧
      let now := (ofDocument d).run crossed
      now.batches[0]?.map Batch.generation = some d.generation ∧
      now.document.generation = d.generation + 1 ∧
      now.document.source = "// elsewhere\nfoo();\nbar();\n".toUTF8 ∧
      (now.step (.commit 0)).1.isOk ∧
      (now.step (.commit 0)).2.document.source = "bazelsewhere\nfoo();\nbar();\n".toUTF8 := by
  have hrun : (Document.ofString none "foo();\nbar();\n").toOption.map (fun d =>
      let now := (ofDocument d).run crossed
      now.batches[0]?.map Batch.generation == some d.generation &&
      now.document.generation == d.generation + 1 &&
      spelledBy ["// elsewhere\nfoo();\nbar();\n"] now.document.source &&
      (now.step (.commit 0)).1.isOk &&
      spelledBy ["bazelsewhere\nfoo();\nbar();\n"] (now.step (.commit 0)).2.document.source) =
        some true := by
    decide +kernel
  obtain ⟨d, hd, hall⟩ := exists_of_toOption_map hrun
  simp only [Bool.and_eq_true, beq_iff_eq] at hall
  obtain ⟨⟨⟨⟨hmade, hnow⟩, hbefore⟩, hok⟩, hafter⟩ := hall
  exact ⟨d, hd, hmade, hnow, eq_of_spelledBy hbefore, hok, eq_of_spelledBy hafter⟩

end Bench

/-! ## Programs as interleavings -/

namespace Program

variable {α : Type}

/-- The bench of a document: its open batch is the one that the block collects in. -/
def Shows (t : Bench) (d : Document) : Prop :=
  t.document = d.closed ∧ match d.batch with
    | none => t.block = none
    | some b => ∃ i, t.block = some i ∧ t.batches[i]? = some b

theorem shows_of_closed {t : Bench} {d : Document} (hd : d.batch = none) :
    Shows t d ↔ t.document = d ∧ t.block = none := by
  have hclosed : d.closed = d := by
    unfold Document.closed
    rw [← hd]
  simp only [Shows, hclosed, hd]

theorem shows_of_open {t : Bench} {d : Document} {b : Batch} (hd : d.batch = some b) :
    Shows t d ↔ t.document = d.closed ∧ ∃ i, t.block = some i ∧ t.batches[i]? = some b := by
  simp only [Shows, hd]

theorem shows_add {t : Bench} {d : Document} {b : Batch} (ht : Shows t d) (hb : d.batch = some b)
    (start stop : Int) (text : Text) (ahead : Bool) :
    ∃ i, Shows (t.step (.add i ⟨start, stop, text, ahead⟩)).2
      ((add start stop text ahead).after d) := by
  obtain ⟨hd, i, hblock, hi⟩ := (shows_of_open hb).mp ht
  have hlt : i < t.batches.length := (List.getElem?_eq_some_iff.mp hi).1
  have hsize : t.document.source.size = d.source.size := by rw [hd]; rfl
  have hgeneration : t.document.generation = d.generation := by rw [hd]; rfl
  refine ⟨i, ?_⟩
  unfold after
  rw [run_add_of_open hb]
  simp only [Bench.step, Bench.add, hi, hsize, hgeneration]
  cases b.add d.generation d.source.size start stop text ahead with
  | error e => exact ht
  | ok b' => exact ⟨hd, i, hblock, List.getElem?_set_self hlt⟩

theorem shows_enter {t : Bench} {d : Document} (ht : Shows t d) (hd : d.batch = none) :
    Shows (t.step .enter).2 d.opened := by
  obtain ⟨hdocument, hblock⟩ := (shows_of_closed hd).mp ht
  have hgeneration : t.document.generation = d.generation := by rw [hdocument]
  simp only [Bench.step, hblock]
  exact ⟨ht.1, t.batches.length, rfl, hgeneration ▸ List.getElem?_concat_length⟩

theorem shows_leave {t : Bench} {d : Document} {b : Batch} (ht : Shows t d) (hb : d.batch = some b) :
    Shows (t.step .leave).2 (d.closed.commit b).2.2 := by
  obtain ⟨hd, i, hblock, hi⟩ := (shows_of_open hb).mp ht
  have hnone : (d.closed.commit b).2.2.batch = none := by
    rcases Document.commit_cases d.closed b with ⟨-, hc⟩ | ⟨-, -, hc⟩ | ⟨-, -, root, -, hc⟩ |
      ⟨-, -, place, snippet, -, hc⟩ <;> rw [hc] <;> rfl
  refine (shows_of_closed hnone).mpr ?_
  simp only [Bench.step, hblock]
  rw [Bench.commit_of_get (t := { t with block := none }) hi]
  exact ⟨by rw [← hd], rfl⟩

/-- Outside a block, a block is entered, and left at the end of its body or abandoned. -/
theorem shows_batched {β : Type} (body : Program β) {d : Document} (hd : d.batch = none)
    {t : Bench} (ht : Shows t (body.after d.opened)) :
    ∃ a, (∀ i, .commit i ≠ a) ∧ Shows (t.step a).2 ((batched body).after d) := by
  obtain ⟨b, hopen, -⟩ := after_of_open body (d := d.opened) rfl
  have hr : (batched body).run d = _ := Document.batched_of_closed body.run hd
  cases hbody : body.run d.opened with
  | error e d' =>
    rw [hbody] at hr
    rw [after_of_error hbody] at ht
    exact ⟨.abandon, nofun, by rw [after_of_error hr]; exact ⟨ht.1, rfl⟩⟩
  | ok a d' =>
    rw [hbody] at hr
    rw [after_of_ok hbody] at ht hopen
    have hb : d'.batch = some b := by rw [hopen]
    have hafter : (batched body).after d = (d'.closed.commit b).2.2 := by
      unfold after
      simp only [hr, Document.closeBatch_apply, hb]
      rcases d'.closed.commit b with ⟨_ | _, _, _⟩ <;> rfl
    exact ⟨.leave, nofun, by rw [hafter]; exact shows_leave ht hb⟩

/-- Whatever a program does to a document is an interleaving in which batches are closed by leaving
blocks only. -/
theorem acts (p : Program α) (d : Document) {t : Bench} (ht : Shows t d) :
    ∃ actions : List Action, (∀ i, .commit i ∉ actions) ∧ Shows (t.run actions) (p.after d) := by
  refine run_keeps (R := fun d _ d' => ∀ t, Shows t d →
    ∃ actions : List Action, (∀ i, .commit i ∉ actions) ∧ Shows (t.run actions) d') ?_ ?_ ?_ ?_ p d t ht
  · exact fun d t ht => ⟨[], nofun, ht⟩
  · intro d d' d'' cs cs' h₁ h₂ t ht
    obtain ⟨first, hfirst, ht⟩ := h₁ t ht
    obtain ⟨rest, hrest, ht⟩ := h₂ _ ht
    refine ⟨first ++ rest, fun i hi => ?_, by rw [Bench.run_append]; exact ht⟩
    exact (List.mem_append.mp hi).elim (hfirst i) (hrest i)
  · intro start stop text ahead d t ht
    cases hb : d.batch with
    | none =>
      rw [after_of_error (run_add_of_closed hb start stop text ahead)]
      exact ⟨[], nofun, ht⟩
    | some b =>
      obtain ⟨i, hshows⟩ := shows_add ht hb start stop text ahead
      exact ⟨[.add i ⟨start, stop, text, ahead⟩], by simp, hshows⟩
  · intro β body d ih t ht
    cases hb : d.batch with
    | some b =>
      rw [after_of_error (run_batched_of_open (by rw [hb]; rfl) body)]
      exact ⟨[], nofun, ht⟩
    | none =>
      obtain ⟨inner, hinner, hshows⟩ := ih d.opened _ (shows_enter ht hb)
      obtain ⟨a, ha, hleft⟩ := shows_batched body hb hshows
      refine ⟨.enter :: (inner ++ [a]), fun i hi => ?_, ?_⟩
      · simp only [List.mem_cons, List.mem_append, List.not_mem_nil, or_false, reduceCtorEq,
          false_or] at hi
        exact hi.elim (hinner i) (ha i)
      · rw [Bench.run_cons, Bench.run_append]
        exact hleft

end Program

end TestMigration
