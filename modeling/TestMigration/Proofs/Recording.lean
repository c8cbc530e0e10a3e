import TestMigration.Proofs.Leaves
import TestMigration.Proofs.Splice
import TestMigration.Proofs.Still

/-! What a block records. In a block a computation sees the document that the block began with, for
a plain look does not depend on the open batch; all that it changes is the batch, to which edits are
added. At the end of the block the batch makes the next text. -/

namespace TestMigration

theorem Text.toString?_ofString (s : String) : (Text.ofString s).toString? = some s := by
  have h : ∀ cs : List Char, (cs.map Glyph.char).mapM Glyph.toChar? = some cs := by
    intro cs
    induction cs with
    | nil => rfl
    | cons c cs ih =>
      rw [List.map_cons, List.mapM_cons, ih]
      rfl
  unfold Text.ofString Text.toString?
  rw [h]
  simp

theorem Text.ofString_append (s t : String) :
    Text.ofString (s ++ t) = Text.ofString s ++ Text.ofString t := by
  simp [Text.ofString]

/-- The edit puts a text in the place of the bytes from `start` to `stop`. -/
def Edit.Puts (e : Edit) (start stop : Nat) (text : String) : Prop :=
  e.start = start ∧ e.stop = stop ∧ e.text = text.toUTF8

namespace Batch

theorem Continues.mem {b b' : Batch} {e : Edit} (h : b.Continues b') (he : e ∈ b.edits) :
    e ∈ b'.edits := by
  obtain ⟨more, rfl⟩ := h
  exact List.mem_append_left _ he

/-- The edit that was asked for is in the batch, and nothing else is new. -/
theorem add_puts {b b' : Batch} {generation length start stop : Nat} {text : Text} {ahead : Bool}
    (h : b.add generation length start stop text ahead = .ok b') :
    ∃ s, text.toString? = some s ∧ (∃ e ∈ b'.edits, e.Puts start stop s) ∧
      ∀ e ∈ b'.edits, e ∈ b.edits ∨ e.Puts start stop s := by
  obtain ⟨-, s, hs, ⟨hthere, rfl⟩ | rfl⟩ := add_cases h
  · exact ⟨s, hs, hthere, fun e he => .inl he⟩
  · refine ⟨s, hs, ⟨_, List.mem_append_right _ (List.mem_singleton.mpr rfl), rfl, rfl, rfl⟩, ?_⟩
    intro e he
    rcases List.mem_append.mp he with hold | hnew
    · exact .inl hold
    · rw [List.mem_singleton.mp hnew]
      exact .inr ⟨rfl, rfl, rfl⟩

/-- What is deferred begins inside something that is applied. -/
theorem deferred_inside {b : Batch} {e : Edit} (he : e ∈ b.settled.2) :
    ∃ outer ∈ b.settled.1, outer.start ≤ e.start ∧ e.start < outer.stop := by
  have hsort : (Edit.sorted b.edits).Pairwise fun x y => x.start ≤ y.start :=
    (Edit.sorted_pairwise _).imp start_le_of_before
  -- the cursor starts at the head of the text, and nothing begins before it
  exact (Edit.settle_deferred hsort e he).resolve_left (Nat.not_lt_zero _)

theorem applied_or_deferred {b : Batch} {e : Edit} (he : e ∈ b.edits) :
    e ∈ b.settled.1 ∨ e ∈ b.settled.2 :=
  List.mem_append.mp ((Edit.settle_perm 0 _).symm.subset ((Edit.sorted_perm _).symm.subset he))

/-- What is recorded for a place is applied, unless the place lies inside something that is. -/
theorem applied_or_inside {b : Batch} {e : Edit} {place : Nat} (he : e ∈ b.edits)
    (hplace : e.start = place) :
    e ∈ b.settled.1 ∨ ∃ outer ∈ b.settled.1, outer.start ≤ place ∧ place < outer.stop := by
  rw [← hplace]
  exact (applied_or_deferred he).imp_right deferred_inside

theorem mem_of_applied {b : Batch} {e : Edit} (he : e ∈ b.settled.1) : e ∈ b.edits :=
  (Edit.sorted_perm _).subset ((Edit.settle_sublist 0 _).subset he)

end Batch

/-! ## Runs in a block -/

/-- In a block on `d` the computation answers `a` and makes the batch `b'` of `b`. -/
def Records {α : Type} (m : Editing α) (d : Document) (b : Batch) (a : α) (b' : Batch) : Prop :=
  m { d with batch := some b } = .ok a { d with batch := some b' }

section

variable {α β : Type} {d : Document} {b b' : Batch}

theorem Made.records {m : Editing α} (hm : Made m) {a : α} {d' : Document}
    (h : m { d with batch := some b } = .ok a d') :
    ∃ b', d' = { d with batch := some b' } ∧ b.Continues b' := by
  obtain ⟨p, rfl, -⟩ := hm
  obtain ⟨b', hafter, hcontinues⟩ := p.after_of_open (d := { d with batch := some b }) rfl
  rw [Program.after_of_ok h] at hafter
  exact ⟨b', hafter, hcontinues⟩

theorem Records.continues {m : Editing α} {a : α} (h : Records m d b a b') (hm : Made m) :
    b.Continues b' := by
  obtain ⟨b'', heq, hcontinues⟩ := hm.records h
  obtain rfl : b' = b'' := Option.some.inj (congrArg Document.batch heq)
  exact hcontinues

theorem Records.pure {a x : α} (h : Records (Pure.pure a) d b x b') : x = a ∧ b' = b := by
  obtain ⟨hx, hd⟩ := EStateM.Result.ok.inj h
  exact ⟨hx.symm, Option.some.inj (congrArg Document.batch hd).symm⟩

theorem Records.bind {m : Editing α} {f : α → Editing β} {x : β} (h : Records (m >>= f) d b x b')
    (hm : Made m) : ∃ a b₁, Records m d b a b₁ ∧ Records (f a) d b₁ x b' := by
  obtain ⟨a, t, hfirst, hrest⟩ := Leaves.bind_ok h
  obtain ⟨b₁, rfl, -⟩ := hm.records hfirst
  exact ⟨a, b₁, hfirst, hrest⟩

/-- A look answers and leaves the document alone. -/
theorem Document.looking_leaves {l : Looking α} {x : Except Failure α} {d' : Document}
    (h : Leaves (Document.looking l) d x d') : l d = x ∧ d' = d := by
  unfold Leaves at h
  rw [Document.looking_apply] at h
  cases hl : l d with
  | ok a =>
    rw [hl] at h
    cases x with
    | ok b =>
      cases h
      exact ⟨rfl, rfl⟩
    | error e => cases h
  | error e =>
    rw [hl] at h
    cases x with
    | ok b => cases h
    | error e' =>
      cases h
      exact ⟨rfl, rfl⟩

theorem Document.look_ok {l : Looking α} {a : α} {d' : Document}
    (h : Leaves (liftM l : Editing α) d (.ok a) d') : l d = .ok a ∧ d' = d :=
  Document.looking_leaves h

/-- A plain look sees the document as it is outside the block. -/
theorem Records.look_bind {l : Looking α} {f : α → Editing β} {x : β}
    (h : Records ((liftM l : Editing α) >>= f) d b x b') (hl : Plain l) :
    ∃ a, l d = .ok a ∧ Records (f a) d b x b' := by
  obtain ⟨a, t, hfirst, hrest⟩ := Leaves.bind_ok h
  obtain ⟨hlook, rfl⟩ := Document.look_ok hfirst
  rw [hl.blind] at hlook
  exact ⟨a, hlook, hrest⟩

/-- Each element of a list has had its turn, and what it recorded is still there at the end. -/
theorem Records.mapM_mem {f : α → Editing β} (hf : ∀ a, Made (f a)) {as : List α} {bs : List β}
    (h : Records (as.mapM f) d b bs b') :
    ∀ a ∈ as, ∃ b₁ c b₂, Records (f a) d b₁ c b₂ ∧ c ∈ bs ∧ b₂.Continues b' := by
  induction as generalizing b bs with
  | nil => simp
  | cons first rest ih =>
    have hrest := made_stepwise.mapM hf rest
    rw [List.mapM_cons] at h
    obtain ⟨c, b₁, hfirst, h⟩ := h.bind (hf first)
    obtain ⟨cs, b₂, hothers, h⟩ := h.bind hrest
    obtain ⟨rfl, rfl⟩ := h.pure
    intro a ha
    rcases List.mem_cons.mp ha with rfl | ha
    · exact ⟨b, c, b₁, hfirst, List.mem_cons_self, hothers.continues hrest⟩
    · obtain ⟨b₃, c', b₄, hrun, hmem, hcontinues⟩ := ih hothers a ha
      exact ⟨b₃, c', b₄, hrun, List.mem_cons_of_mem _ hmem, hcontinues⟩

/-- What the turn of every element keeps, the whole list keeps. -/
theorem Records.mapM_keeps {f : α → Editing β} (hf : ∀ a, Made (f a)) {I : Batch → Prop}
    {Q : β → Prop} {as : List α}
    (step : ∀ a ∈ as, ∀ b c b', I b → Records (f a) d b c b' → I b' ∧ Q c) {bs : List β}
    (h : Records (as.mapM f) d b bs b') (hb : I b) : I b' ∧ ∀ c ∈ bs, Q c := by
  induction as generalizing b bs with
  | nil =>
    obtain ⟨rfl, rfl⟩ := h.pure
    exact ⟨hb, by simp⟩
  | cons first rest ih =>
    have hrest := made_stepwise.mapM hf rest
    rw [List.mapM_cons] at h
    obtain ⟨c, b₁, hfirst, h⟩ := h.bind (hf first)
    obtain ⟨cs, b₂, hothers, h⟩ := h.bind hrest
    obtain ⟨rfl, rfl⟩ := h.pure
    obtain ⟨hb₁, hc⟩ := step first List.mem_cons_self _ _ _ hb hfirst
    obtain ⟨hb₂, hcs⟩ := ih (fun a ha => step a (List.mem_cons_of_mem _ ha)) hothers hb₁
    refine ⟨hb₂, ?_⟩
    intro x hx
    rcases List.mem_cons.mp hx with rfl | hx
    · exact hc
    · exact hcs x hx

theorem Records.forM_mem {f : α → Editing PUnit} (hf : ∀ a, Made (f a)) {as : List α} {u : PUnit}
    (h : Records (as.forM f) d b u b') :
    ∀ a ∈ as, ∃ b₁ b₂, Records (f a) d b₁ ⟨⟩ b₂ ∧ b₂.Continues b' := by
  induction as generalizing b with
  | nil => simp
  | cons first rest ih =>
    obtain ⟨c, b₁, hfirst, hothers⟩ := Records.bind h (hf first)
    intro a ha
    rcases List.mem_cons.mp ha with rfl | ha
    · exact ⟨b, b₁, hfirst, Records.continues hothers (made_stepwise.forM hf rest)⟩
    · exact ih hothers a ha

theorem Records.forM_keeps {f : α → Editing PUnit} (hf : ∀ a, Made (f a)) {I : Batch → Prop}
    {as : List α} (step : ∀ a ∈ as, ∀ b c b', I b → Records (f a) d b c b' → I b') {u : PUnit}
    (h : Records (as.forM f) d b u b') (hb : I b) : I b' := by
  induction as generalizing b with
  | nil =>
    obtain ⟨-, rfl⟩ := Records.pure h
    exact hb
  | cons first rest ih =>
    obtain ⟨c, b₁, hfirst, h⟩ := Records.bind h (hf first)
    exact ih (fun a ha => step a (List.mem_cons_of_mem _ ha)) h
      (step first List.mem_cons_self _ _ _ hb hfirst)

theorem Handle.node_ok {h : Handle} {n : Script.Node} (hn : h.node d = .ok n) :
    n = h.place.node := by
  change (if h.generation == d.generation then Pure.pure h.place.node else throw _ :
    Looking Script.Node) d = .ok n at hn
  split at hn
  · cases hn
    rfl
  · cases hn

/-- An edit recorded in a block is put into its batch. -/
theorem records_add {start stop : Nat} {text : Text} {ahead : Bool} {u : Unit}
    (hr : Records (Document.recordEdit start stop text ahead) d b u b') :
    b.add d.generation d.source.size start stop text ahead = .ok b' := by
  have hadd : (Program.add start stop text ahead).run
      { d with batch := some b } = .ok u { d with batch := some b' } := hr
  rw [Program.run_add_of_open (b := b) rfl] at hadd
  cases ha : b.add d.generation d.source.size start stop text ahead with
  | error e =>
    dsimp only at hadd
    rw [ha] at hadd
    cases hadd
  | ok b₁ =>
    dsimp only at hadd
    rw [ha] at hadd
    exact congrArg Except.ok (Option.some.inj (congrArg Document.batch (EStateM.Result.ok.inj hadd).2))

theorem records_recordEdit {start stop : Nat} {text : Text} {ahead : Bool} {u : Unit}
    (hr : Records (Document.recordEdit start stop text ahead) d b u b') :
    ∃ s, text.toString? = some s ∧ (∃ e ∈ b'.edits, e.Puts start stop s) ∧
      ∀ e ∈ b'.edits, e ∈ b.edits ∨ e.Puts start stop s :=
  Batch.add_puts (records_add hr)

theorem records_replaceWith {h : Handle} {text : Text} {u : Unit}
    (hr : Records (h.replaceWith text) d b u b') :
    ∃ s, text.toString? = some s ∧
      (∃ e ∈ b'.edits, e.Puts h.place.node.start h.place.node.stop s) ∧
      ∀ e ∈ b'.edits, e ∈ b.edits ∨ e.Puts h.place.node.start h.place.node.stop s := by
  obtain ⟨n, hn, hr⟩ := hr.look_bind h.plain_node
  rw [← Handle.node_ok hn]
  exact records_recordEdit hr

theorem records_replaceText {h : Handle} {s : String} {u : Unit}
    (hr : Records (h.replaceWith (.ofString s)) d b u b') :
    (∃ e ∈ b'.edits, e.Puts h.place.node.start h.place.node.stop s) ∧
      ∀ e ∈ b'.edits, e ∈ b.edits ∨ e.Puts h.place.node.start h.place.node.stop s := by
  obtain ⟨s', hs', hputs⟩ := records_replaceWith hr
  rw [Text.toString?_ofString] at hs'
  cases hs'
  exact hputs

/-- One turn of a replacement: the text that is built for a node is put in its place. -/
theorem records_replaceBy {build : Handle → Looking (Option Text)} (hb : ∀ h, Plain (build h))
    {h : Handle} {n : Nat} (hr : Records (h.replaceBy build) d b n b') :
    ∃ text, build h d = .ok text ∧
      (∀ t, text = some t → ∃ s, t.toString? = some s ∧
        ∃ e ∈ b'.edits, e.Puts h.place.node.start h.place.node.stop s) ∧
      ∀ e ∈ b'.edits, e ∈ b.edits ∨ ∃ t s, text = some t ∧ t.toString? = some s ∧
        e.Puts h.place.node.start h.place.node.stop s := by
  obtain ⟨text, htext, hr⟩ := hr.look_bind (hb h)
  refine ⟨text, htext, ?_⟩
  cases text with
  | none =>
    obtain ⟨-, rfl⟩ := hr.pure
    exact ⟨by simp, fun e he => .inl he⟩
  | some t =>
    obtain ⟨u, b₁, hreplace, hr⟩ := hr.bind (h.made_replaceWith t)
    obtain ⟨-, rfl⟩ := hr.pure
    obtain ⟨s, hs, hputs, honly⟩ := records_replaceWith hreplace
    refine ⟨?_, ?_⟩
    · intro t' ht'
      cases ht'
      exact ⟨s, hs, hputs⟩
    · intro e he
      rcases honly e he with hold | hnew
      · exact .inl hold
      · exact .inr ⟨t, s, rfl, hs, hnew⟩

/-- The edits recorded are the replacements of the nodes of a list for which a text is built. -/
structure Replaces (build : Handle → Looking (Option Text)) (d : Document) (found : List Handle)
    (recorded : List Edit) : Prop where
  only : ∀ e ∈ recorded, ∃ h ∈ found, ∃ t s, build h d = .ok (some t) ∧ t.toString? = some s ∧
    e.Puts h.place.node.start h.place.node.stop s
  each : ∀ h ∈ found, ∃ text, build h d = .ok text ∧ ∀ t, text = some t →
    ∃ s, t.toString? = some s ∧ ∃ e ∈ recorded, e.Puts h.place.node.start h.place.node.stop s

theorem records_replaceEach {build : Handle → Looking (Option Text)} (hb : ∀ h, Plain (build h))
    {found : List Handle} {counts : List Nat} (hr : Records (found.mapM (·.replaceBy build)) d b counts b')
    (fresh : b.edits = []) : Replaces build d found b'.edits := by
  have hmade := Handle.made_replaceBy hb
  constructor
  · refine (hr.mapM_keeps hmade (I := fun b₁ => ∀ e ∈ b₁.edits, ∃ h ∈ found, ∃ t s,
      build h d = .ok (some t) ∧ t.toString? = some s ∧
        e.Puts h.place.node.start h.place.node.stop s) (Q := fun _ => True) ?_ ?_).1
    · intro h hh b₁ n b₂ hb₁ hrun
      refine ⟨?_, trivial⟩
      intro e he
      obtain ⟨text, htext, -, honly⟩ := records_replaceBy hb hrun
      rcases honly e he with hold | ⟨t, s, ht, hs, hputs⟩
      · exact hb₁ e hold
      · rw [ht] at htext
        exact ⟨h, hh, t, s, htext, hs, hputs⟩
    · intro e he
      rw [fresh] at he
      cases he
  · intro h hh
    obtain ⟨b₁, n, b₂, hrun, -, hcontinues⟩ := hr.mapM_mem hmade h hh
    obtain ⟨text, htext, hputs, -⟩ := records_replaceBy hb hrun
    refine ⟨text, htext, ?_⟩
    intro t ht
    obtain ⟨s, hs, e, he, hputs⟩ := hputs t ht
    exact ⟨s, hs, e, hcontinues.mem he, hputs⟩

/-- In an open block everything that a pattern finds is replaced. -/
theorem records_replaceAll {p : Pattern} (hp : p.Quiet) {build : Handle → Looking (Option Text)}
    (hb : ∀ h, Plain (build h)) {n : Nat}
    (hr : Records (do (← (MatchSet.ofTree p : Looking _)).replaceWith build) d b n b')
    (fresh : b.edits = []) : ∃ found, findAll p d = .ok found ∧ Replaces build d found b'.edits := by
  replace hr : Records
      ((MatchSet.within [⟨d.generation, .root d.root⟩] p).replaceWith build) d b n b' := hr
  obtain ⟨found, hfound, hr⟩ := hr.look_bind (MatchSet.plain_members _ hp)
  refine ⟨found, hfound, ?_⟩
  split at hr
  · rename_i hempty
    obtain ⟨-, rfl⟩ := hr.pure
    rw [List.isEmpty_iff.mp hempty, fresh]
    exact ⟨by simp, by simp⟩
  · replace hr : Records (do
        return (← found.mapM (·.replaceBy build)).foldr (· + ·) 0) d b n b' := hr
    obtain ⟨counts, b₁, hcounts, hr⟩ := hr.bind (made_stepwise.mapM (Handle.made_replaceBy hb) found)
    obtain ⟨-, rfl⟩ := hr.pure
    exact records_replaceEach hb hcounts fresh

/-! ## Blocks and rounds -/

/-- A block that ends well has made its outcome the text, and nothing at all if its batch is
empty. -/
theorem batched_records {body : Editing α} (hb : Made body) (closed : d.batch = none) {a : α}
    {spent : Batch} {d' : Document} (h : Document.batched body d = .ok (a, spent) d') :
    ∃ b, Records body d (.open' d.generation) a b ∧ d'.source = b.outcome d.source ∧
      d'.batch = none ∧ spent.deferred = b.settled.2 ∧ (b.edits = [] → d' = d) := by
  obtain ⟨p, rfl, -⟩ := hb
  have hrun : (Program.batched p).run d = .ok (a, spent) d' := h
  rcases p.batched_cases closed with ⟨e, -, hr, -⟩ | ⟨a', b, hbody, -, hcontinues, hend⟩
  · rw [hr] at hrun
    cases hrun
  · rcases hend with ⟨he, hr⟩ | ⟨he, root, -, hr⟩ | ⟨-, place, snippet, -, hr⟩
    · rw [hr] at hrun
      cases hrun
      refine ⟨b, hbody, ?_, closed, ?_, fun _ => rfl⟩
      · simp [Batch.outcome, Batch.settled, he, Edit.settle, Edit.splice,
          ByteArray.extract_zero_size]
      · obtain ⟨more, rfl⟩ := hcontinues
        rw [Batch.settled, he]
        rfl
    · rw [hr] at hrun
      cases hrun
      exact ⟨b, hbody, rfl, closed, rfl, fun hnone => absurd hnone he⟩
    · rw [hr] at hrun
      cases hrun

/-- Where no block is open, the replacements make up a block of their own. -/
theorem replaceAll_records {p : Pattern} {build : Handle → Looking (Option Text)}
    (hb : ∀ h, Plain (build h)) (closed : d.batch = none) {n : Nat} {d' : Document}
    (h : (do (← (MatchSet.ofTree p : Looking _)).replaceWith build : Editing Nat) d = .ok n d') :
    ∃ found b counts, findAll p d = .ok found ∧
      Records (found.mapM (·.replaceBy build)) d (.open' d.generation) counts b ∧
      n = counts.foldr (· + ·) 0 ∧ d'.source = b.outcome d.source := by
  replace h : Leaves ((MatchSet.within [⟨d.generation, .root d.root⟩] p).replaceWith build) d (.ok n)
      d' := h
  obtain ⟨found, t, hfound, h⟩ := h.bind_ok
  obtain ⟨hfound, ht⟩ := Document.look_ok hfound
  rw [ht] at h
  split at h
  · rename_i hempty
    obtain ⟨hn, rfl⟩ := h.pure
    cases hn
    refine ⟨found, .open' d'.generation, [], hfound, ?_, rfl, ?_⟩
    · rw [List.isEmpty_iff.mp hempty]
      rfl
    · simp [Batch.outcome, Batch.settled, Batch.open', Edit.settle, Edit.splice,
        ByteArray.extract_zero_size]
  · have hbody := (made_stepwise.mapM (Handle.made_replaceBy hb) found).bind fun counts =>
      made_pure (counts.foldr (· + ·) 0)
    unfold Document.editing at h
    replace h := h.get_bind
    rw [closed] at h
    obtain ⟨⟨m, spent⟩, t', hbatched, h⟩ := Leaves.bind_ok h
    obtain ⟨hn, hsame⟩ := h.pure
    cases hn
    obtain ⟨b, hrecords, hsource, -, -, -⟩ := batched_records hbody closed hbatched
    obtain ⟨counts, b₁, hcounts, hrecords⟩ :=
      hrecords.bind (made_stepwise.mapM (Handle.made_replaceBy hb) found)
    obtain ⟨hm, rfl⟩ := hrecords.pure
    exact ⟨found, b, counts, hfound, hcounts, hm, by rw [hsame, hsource]⟩

theorem replaceAll_replaces {p : Pattern} {build : Handle → Looking (Option Text)}
    (hb : ∀ h, Plain (build h)) (closed : d.batch = none) {n : Nat} {d' : Document}
    (h : (do (← (MatchSet.ofTree p : Looking _)).replaceWith build : Editing Nat) d = .ok n d') :
    ∃ found, ∃ b : Batch, findAll p d = .ok found ∧ Replaces build d found b.edits ∧
      d'.source = b.outcome d.source := by
  obtain ⟨found, b, counts, hfound, hcounts, -, hsource⟩ := replaceAll_records hb closed h
  exact ⟨found, b, hfound, records_replaceEach hb hcounts rfl, hsource⟩

/-- Rounds, one after another, that record edits of the kind `R`. In each but the last some edits
begin inside others and are left to the next. -/
inductive Rounds (R : Document → List Edit → Prop) : Document → Document → Prop where
  | last {d d' : Document} {b : Batch} : R d b.edits → b.settled.2 = [] →
    d'.source = b.outcome d.source → Rounds R d d'
  | more {d d₁ d' : Document} {b : Batch} : R d b.edits → b.settled.2 ≠ [] →
    d₁.source = b.outcome d.source → Rounds R d₁ d' → Rounds R d d'

/-- What every round records, all rounds do. -/
theorem rounds_of_untilStable {round : Editing Unit} (hr : Made round)
    {R : Document → List Edit → Prop}
    (step : ∀ d b, Records round d (.open' d.generation) () b → R d b.edits) {limit : Int}
    (closed : d.batch = none) {n : Nat} {d' : Document}
    (h : Document.untilStable round limit d = .ok n d') : Rounds R d d' := by
  unfold Document.untilStable at h
  -- the induction is on the rounds that are left; how many edits were applied before is no matter
  generalize limit.toNat = rounds at h
  generalize 0 = total at h
  induction rounds generalizing d total with
  | zero => cases h
  | succ rounds ih =>
    obtain ⟨⟨u, spent⟩, d₁, hbatched, h⟩ := Leaves.bind_ok h
    obtain ⟨b, hrecords, hsource, hclosed, hdeferred, -⟩ := batched_records hr closed hbatched
    have hstep := step d b hrecords
    dsimp only at h
    split at h
    · rename_i hnone
      rw [hdeferred, List.isEmpty_iff] at hnone
      obtain ⟨-, rfl⟩ := h.pure
      exact .last hstep hnone hsource
    · rename_i hsome
      rw [hdeferred, List.isEmpty_iff] at hsome
      exact .more hstep hsome hsource (ih hclosed _ h)

theorem Rounds.mono {R R' : Document → List Edit → Prop} (hsub : ∀ d es, R d es → R' d es)
    {d d' : Document} (h : Rounds R d d') : Rounds R' d d' := by
  induction h with
  | last hr hnone hsource => exact .last (hsub _ _ hr) hnone hsource
  | more hr hsome hsource _ ih => exact .more (hsub _ _ hr) hsome hsource ih

/-- Rounds that replace what a pattern finds. -/
theorem rounds_of_replaceAll {p : Pattern} (hp : p.Quiet) {build : Handle → Looking (Option Text)}
    (hb : ∀ h, Plain (build h)) {limit : Int} (closed : d.batch = none) {n : Nat} {d' : Document}
    (h : Document.untilStable (do
      let _ ← (← (MatchSet.ofTree p : Looking _)).replaceWith build) limit d = .ok n d') :
    Rounds (fun d recorded => ∃ found, findAll p d = .ok found ∧ Replaces build d found recorded)
      d d' := by
  have hset := MatchSet.made_ofTree_bind hp fun set hs => set.made_replaceWith hs hb
  have hround := MatchSet.made_ofTree_bind hp fun set hs =>
    (set.made_replaceWith hs hb).bind fun _ => made_pure ()
  refine rounds_of_untilStable hround ?_ closed h
  intro d₁ b hrecords
  rw [← bind_assoc] at hrecords
  obtain ⟨m, b₁, hrecords, hpure⟩ := hrecords.bind hset
  obtain ⟨-, rfl⟩ := hpure.pure
  exact records_replaceAll hp hb hrecords rfl

end

/-! ## Steps of looks and passes -/

theorem looks_bind {α β : Type} {l : Looking α} {f : α → Looking β} {d : Document} {b : β}
    (h : (l >>= f) d = .ok b) : ∃ a, l d = .ok a ∧ f a d = .ok b := by
  change (l d).bind (fun a => f a d) = .ok b at h
  cases hl : l d with
  | error e =>
    rw [hl] at h
    cases h
  | ok a =>
    rw [hl] at h
    exact ⟨a, rfl, h⟩

/-- A look goes on from what its first part answers. -/
theorem look_bind_of_ok {α β : Type} {l : Looking α} {f : α → Looking β} {d : Document} {a : α}
    (h : l d = .ok a) : (l >>= f) d = f a d := by
  change (l d).bind (fun a => f a d) = _
  rw [h]
  rfl

/-- A lifted computation runs on the document of the session. -/
theorem Pass.lift_leaves {α : Type} {edit : Editing α} {s s' : Session} {x : Except Failure α}
    (h : Leaves (Pass.lift edit) s x s') :
    ∃ d, Leaves edit s.document x d ∧ s' = { s with document := d } := by
  unfold Leaves Pass.lift at h
  cases hedit : edit s.document with
  | ok b d =>
    rw [hedit] at h
    cases x with
    | ok a =>
      cases h
      exact ⟨d, hedit, rfl⟩
    | error e => cases h
  | error e d =>
    rw [hedit] at h
    cases x with
    | ok a => cases h
    | error e' =>
      cases h
      exact ⟨d, hedit, rfl⟩

theorem Pass.lift_ok {α : Type} {edit : Editing α} {s s' : Session} {a : α}
    (h : Leaves (Pass.lift edit) s (.ok a) s') :
    ∃ d, edit s.document = .ok a d ∧ s' = { s with document := d } :=
  Pass.lift_leaves h

theorem Pass.lift_of_ok {α : Type} {edit : Editing α} {s : Session} {a : α} {d : Document}
    (h : edit s.document = .ok a d) : Pass.lift edit s = .ok a { s with document := d } := by
  unfold Pass.lift
  rw [h]

theorem Pass.lift_of_error {α : Type} {edit : Editing α} {s : Session} {e : Failure} {d : Document}
    (h : edit s.document = .error e d) : Pass.lift edit s = .error e { s with document := d } := by
  unfold Pass.lift
  rw [h]

theorem Pass.look_ok {α : Type} {l : Looking α} {s s' : Session} {a : α}
    (h : Leaves (liftM l : Pass α) s (.ok a) s') : l s.document = .ok a ∧ s' = s := by
  obtain ⟨d, hrun, rfl⟩ := Pass.lift_ok h
  obtain ⟨hl, rfl⟩ := Document.look_ok hrun
  exact ⟨hl, rfl⟩

theorem Pass.Programmed.closed {α : Type} {m : Pass α} (hm : Programmed m) {s s' : Session} {a : α}
    (h : m s = .ok a s') (closed : s.document.batch = none) : s'.document.batch = none := by
  obtain ⟨p, hrun⟩ := hm.run_ok h
  rw [← Program.after_of_ok hrun]
  exact p.after_of_closed closed

end TestMigration
