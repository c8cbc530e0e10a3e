import TestMigration.Proofs.Sights

/-! Careful changes. A computation is careful if it leaves a document that holds a text wherever it meets
one, also when it fails, and does not fail over bytes that are no text. The edits that are made with held
handles and at the top of the document are careful, for they begin and end between characters, and so are
blocks and rounds of what is careful. -/

namespace TestMigration

open Script (Node Kind Field Place Cut)

/-- Run from a state whose document holds a text, the computation leaves such a document, the same one or
a later one; its answer is as told, and it does not fail over bytes that are no text. -/
def Yields {σ α : Type} (doc : σ → Document) (m : EStateM Failure σ α) (s : σ)
    (Q : Document → α → Prop) : Prop :=
  (doc s).Intact → ∀ x s', Leaves m s x s' → (doc s').Intact ∧ (doc s).Precedes (doc s') ∧
    (∀ a, x = .ok a → Q (doc s') a) ∧ ∀ e, x = .error e → e.kind ≠ .undecodable

/-- The same, whatever the answer. -/
def Careful {σ α : Type} (doc : σ → Document) (m : EStateM Failure σ α) (s : σ) : Prop :=
  Yields doc m s fun _ _ => True

section Steps

variable {σ α β : Type} {doc : σ → Document} {m : EStateM Failure σ α} {s : σ}
  {Q : Document → α → Prop} {R : Document → β → Prop}

theorem yields_pure {a : α} (ha : Q (doc s) a) : Yields doc (pure a) s Q := by
  intro hs x s' h
  obtain ⟨rfl, rfl⟩ := h.pure
  exact ⟨hs, .refl _, fun b hb => Except.ok.inj hb ▸ ha, nofun⟩

theorem careful_pure (a : α) : Careful doc (pure a) s := yields_pure trivial

theorem Yields.bind {f : α → EStateM Failure σ β} (hm : Yields doc m s Q)
    (hf : ∀ a t, (doc s).Precedes (doc t) → Q (doc t) a → Yields doc (f a) t R) :
    Yields doc (m >>= f) s R := by
  intro hs x s' h
  rcases h.bind with ⟨a, t, hfirst, hrest⟩ | ⟨e, hfirst, rfl⟩
  · obtain ⟨ht, hlater, hanswer, -⟩ := hm hs _ _ hfirst
    obtain ⟨hs', hlater', hlast⟩ := hf a t hlater (hanswer a rfl) ht _ _ hrest
    exact ⟨hs', hlater.trans hlater', hlast⟩
  · obtain ⟨hs', hlater, -, hfails⟩ := hm hs _ _ hfirst
    exact ⟨hs', hlater, nofun, fun e' he' => Except.error.inj he' ▸ hfails e rfl⟩

theorem Careful.bind {f : α → EStateM Failure σ β} (hm : Careful doc m s)
    (hf : ∀ a t, (doc s).Precedes (doc t) → Yields doc (f a) t R) : Yields doc (m >>= f) s R :=
  Yields.bind hm fun a t hlater _ => hf a t hlater

theorem Yields.careful (hm : Yields doc m s Q) : Careful doc m s := fun hs x s' h =>
  have hdone := hm hs x s' h
  ⟨hdone.1, hdone.2.1, fun _ _ => trivial, hdone.2.2.2⟩

theorem yields_of_intact (h : (doc s).Intact → Yields doc m s Q) : Yields doc m s Q := fun hs => h hs hs

theorem yields_throw {e : Failure} (he : e.kind ≠ .undecodable) :
    Yields doc (throw e : EStateM Failure σ α) s Q := by
  intro hs x s' h
  obtain ⟨rfl, rfl⟩ := h.throw
  exact ⟨hs, .refl _, nofun, fun e' he' => Except.error.inj he' ▸ he⟩

theorem careful_tryCatch {handler : Failure → EStateM Failure σ α} (hm : Careful doc m s)
    (hh : ∀ e t, (doc s).Precedes (doc t) → e.kind ≠ .undecodable → Careful doc (handler e) t) :
    Careful doc (tryCatch m handler) s := by
  intro hs x s' h
  rcases h.tryCatch with ⟨a, hdone, rfl⟩ | ⟨e, t, hfail, hhandler⟩
  · exact hm hs _ _ hdone
  · obtain ⟨ht, hlater, -, hfails⟩ := hm hs _ _ hfail
    obtain ⟨hs', hlater', hlast⟩ := hh e t hlater (hfails e rfl) ht _ _ hhandler
    exact ⟨hs', hlater.trans hlater', hlast⟩

theorem yields_get_bind {f : σ → EStateM Failure σ β} (hf : Yields doc (f s) s R) :
    Yields doc (get >>= f) s R := hf

/-- What holds of every turn's answer and lasts holds of all of them in the end. -/
theorem yields_mapM {Q : Document → β → Prop} {f : α → EStateM Failure σ β} {as : List α}
    (hlasts : ∀ d d' b, d.Precedes d' → Q d b → Q d' b)
    (hf : ∀ a ∈ as, ∀ t, (doc s).Precedes (doc t) → Yields doc (f a) t Q) :
    Yields doc (as.mapM f) s fun d bs => ∀ b ∈ bs, Q d b := by
  induction as generalizing s with
  | nil => exact yields_pure (List.forall_mem_nil _)
  | cons a as ih =>
    obtain ⟨ha, has⟩ := List.forall_mem_cons.mp hf
    rw [List.mapM_cons]
    refine (ha s (.refl _)).bind fun b t ht hb => ?_
    refine (ih fun a' ha' u hu => has a' ha' u (ht.trans hu)).bind fun bs u hu hbs => yields_pure ?_
    exact List.forall_mem_cons.mpr ⟨hlasts _ _ b hu hb, hbs⟩

theorem careful_mapM {f : α → EStateM Failure σ β} {as : List α}
    (hf : ∀ a ∈ as, ∀ t, (doc s).Precedes (doc t) → Careful doc (f a) t) : Careful doc (as.mapM f) s :=
  (yields_mapM (fun _ _ _ _ h => h) hf).careful

theorem careful_forM {f : α → EStateM Failure σ PUnit} {as : List α}
    (hf : ∀ a ∈ as, ∀ t, (doc s).Precedes (doc t) → Careful doc (f a) t) : Careful doc (as.forM f) s := by
  induction as generalizing s with
  | nil => exact careful_pure _
  | cons a as ih =>
    obtain ⟨ha, has⟩ := List.forall_mem_cons.mp hf
    exact (ha s (.refl _)).bind fun _ t ht => ih fun a' ha' u hu => has a' ha' u (ht.trans hu)

theorem careful_forIn {f : α → β → EStateM Failure σ (ForInStep β)} {as : List α} {b : β}
    (hf : ∀ a ∈ as, ∀ b t, (doc s).Precedes (doc t) → Careful doc (f a b) t) :
    Careful doc (ForIn.forIn as b f) s := by
  induction as generalizing s b with
  | nil =>
    rw [List.forIn_nil]
    exact careful_pure _
  | cons a as ih =>
    obtain ⟨ha, has⟩ := List.forall_mem_cons.mp hf
    rw [List.forIn_cons]
    refine (ha b s (.refl _)).bind fun step t ht => ?_
    cases step with
    | done b => exact careful_pure _
    | yield b => exact ih fun a' ha' b u hu => has a' ha' b u (ht.trans hu)

theorem careful_foldlM {f : β → α → EStateM Failure σ β} {as : List α} {b : β}
    (hf : ∀ a ∈ as, ∀ b t, (doc s).Precedes (doc t) → Careful doc (f b a) t) :
    Careful doc (as.foldlM f b) s := by
  induction as generalizing s b with
  | nil => exact careful_pure _
  | cons a as ih =>
    obtain ⟨ha, has⟩ := List.forall_mem_cons.mp hf
    rw [List.foldlM_cons]
    exact (ha b s (.refl _)).bind fun b t ht => ih fun a' ha' b u hu => has a' ha' b u (ht.trans hu)

end Steps

/-! ## Blocks -/

namespace Document

variable {α β : Type} {d : Document} {R : Document → β → Prop}

theorem precedes_opened (d : Document) : d.Precedes d.opened := .of_sameText rfl ⟨rfl, rfl, rfl⟩

theorem precedes_closed (d : Document) : d.Precedes d.closed := .of_sameText rfl ⟨rfl, rfl, rfl⟩

/-- A look leaves the document alone. -/
theorem yields_look_bind {l : Looking α} {Q : α → Prop} {f : α → Editing β} (hl : Finds d l Q)
    (hf : ∀ a, Q a → Yields id (f a) d R) : Yields id ((liftM l : Editing α) >>= f) d R := by
  intro hd x d' h
  obtain ⟨hanswer, hfails⟩ := hl hd
  rcases h.bind with ⟨a, t, hlook, hrest⟩ | ⟨e, hlook, rfl⟩
  · obtain ⟨ha, rfl⟩ := look_ok hlook
    exact hf a (hanswer a ha) hd _ _ hrest
  · replace hlook : looking l d = .error e d' := hlook
    rw [looking_apply] at hlook
    cases hl : l d with
    | ok a =>
      rw [hl] at hlook
      cases hlook
    | error e' =>
      rw [hl] at hlook
      cases hlook
      exact ⟨hd, .refl _, nofun, fun e' he' => Except.error.inj he' ▸ hfails e hl⟩

theorem yields_set {d' : Document} {Q : Document → PUnit → Prop} (hd' : d.Intact → d'.Intact)
    (hlater : d.Precedes d') (hq : Q d' ⟨⟩) : Yields id (set d' : Editing PUnit) d Q := by
  intro hd x t h
  obtain ⟨rfl, rfl⟩ := Leaves.modify (f := fun _ => d') h
  exact ⟨hd' hd, hlater, fun _ _ => hq, nofun⟩

/-- Taken from its document, the batch still parts no character of it. -/
theorem yields_dropBatch (d : Document) : Yields id dropBatch d fun d' dropped =>
    d'.batch = none ∧ ∀ b ∈ dropped, ∀ e ∈ b.edits, d'.Neat e := by
  refine yields_of_intact fun hd => yields_get_bind ?_
  refine Yields.bind (Q := fun t _ => t = d.closed) (yields_set Intact.closed d.precedes_closed rfl) ?_
  rintro u t - rfl
  exact yields_pure ⟨rfl, fun b hb => Intact.neat hd b hb⟩

theorem commit_fails_with {b b' : Batch} {d' : Document} {e : Failure}
    (h : d.commit b = (.error e, b', d')) : e.kind ≠ .undecodable := by
  rcases commit_cases d b with ⟨-, hc⟩ | ⟨-, -, hc⟩ | ⟨-, -, root, -, hc⟩ | ⟨-, -, place, snippet, -, hc⟩
  all_goals
    rw [hc] at h
    cases h
  · exact (by decide : FailureKind.transformation ≠ .undecodable)
  · exact (by decide : FailureKind.invalidEdit ≠ .undecodable)

/-- The edits of the open batch part no character, so what they make of the text is a text. -/
theorem careful_closeBatch (d : Document) : Careful id closeBatch d := by
  refine (yields_dropBatch d).bind fun dropped t _ hdropped => ?_
  obtain ⟨hclosed, hneat⟩ := hdropped
  cases dropped with
  | none => exact yields_throw (by simp [Failure.transformation])
  | some b =>
    refine yields_get_bind ?_
    have hcommit : t.Intact → (t.commit b).2.2.Intact := fun ht => ht.commit hclosed (hneat b rfl)
    have hlater := precedes_commit t b
    rcases hc : t.commit b with ⟨outcome, b', d'⟩
    rw [hc] at hcommit hlater
    dsimp only [id]
    refine Careful.bind (yields_set hcommit hlater trivial) fun _ u _ => ?_
    cases outcome with
    | ok u => exact careful_pure _
    | error e => exact yields_throw (commit_fails_with hc)

theorem yields_openBatch (d : Document) : Yields id openBatch d fun t _ => t = d.opened := by
  refine yields_get_bind ?_
  split
  · exact yields_throw (by simp [Failure.transformation])
  · exact yields_set Intact.opened d.precedes_opened rfl

/-- A block of what is careful is careful, whether its batch is applied or dropped. -/
theorem careful_batched {body : Editing α} (hb : Careful id body d.opened) :
    Careful id (batched body) d := by
  refine (yields_openBatch d).bind fun _ t _ ht => ?_
  subst ht
  refine (careful_tryCatch hb fun e t _ he => ?_).bind fun a t _ => ?_
  · exact (yields_dropBatch t).careful.bind fun _ _ _ => yields_throw he
  · exact (careful_closeBatch t).bind fun _ _ _ => careful_pure _

theorem careful_editing {body : Editing α} (hopen : Careful id body d)
    (hb : Careful id body d.opened) : Careful id (editing body) d := by
  refine yields_get_bind ?_
  split
  · exact hopen
  · exact (careful_batched hb).bind fun _ _ _ => careful_pure _

theorem careful_roundsFrom {round : Editing Unit} (hr : ∀ t, d.Precedes t → Careful id round t)
    (limit : Int) (rounds total : Nat) : Careful id (roundsFrom round limit rounds total) d := by
  induction rounds generalizing d total with
  | zero => exact yields_throw (by simp [Failure.transformation])
  | succ rounds ih =>
    refine (careful_batched (hr _ d.precedes_opened)).bind fun r t ht => ?_
    obtain ⟨-, b⟩ := r
    dsimp only
    split
    · exact careful_pure _
    · exact ih (fun u hu => hr u (ht.trans hu)) _

theorem careful_untilStable {round : Editing Unit} (hr : ∀ t, d.Precedes t → Careful id round t)
    (limit : Int) : Careful id (untilStable round limit) d := careful_roundsFrom hr limit _ _

theorem add_fails {b : Batch} {generation length : Nat} {start stop : Int} {text : Text}
    {ahead : Bool} {e : Failure} (h : b.add generation length start stop text ahead = .error e) :
    e.kind ≠ .undecodable := by
  unfold Batch.add at h
  iterate 4
    split at h
    · cases h
      simp [Failure.transformation, Failure.stale, Failure.of]
  · dsimp only at h
    split at h
    all_goals cases h

/-! ## Edits -/

variable {start stop : Nat} {text : Text} {ahead : Bool}

theorem careful_add (hstart : d.Cuts start) (hstop : d.Cuts stop) :
    Careful id (addToBatch start stop text ahead) d := by
  refine yields_of_intact fun hd => yields_get_bind ?_
  split
  · exact yields_throw (by simp [Failure.transformation])
  · rename_i b hb
    split
    · rename_i b' hb'
      obtain ⟨put, -, -, honly⟩ := Batch.add_puts hb'
      refine yields_set (fun hd => hd.withBatch fun b'' hb'' e he => ?_) (.of_sameText rfl ⟨rfl, rfl, rfl⟩) trivial
      cases hb''
      rcases honly e he with hold | hnew
      · exact hd.neat b hb e hold
      · exact neat_of_cuts hstart hstop hnew
    · exact yields_throw (add_fails ‹_›)

theorem careful_recordEdit (hstart : d.Cuts start) (hstop : d.Cuts stop) :
    Careful id (recordEdit start stop text ahead) d :=
  careful_editing (careful_add hstart hstop) (careful_add hstart hstop)

/-- Above everything but a hash-bang line is where a line begins. -/
theorem Intact.cuts_top (hd : d.Intact) : d.Cuts d.top := by
  unfold top
  split
  · rename_i line hline
    refine Cuts.lineStop fun text htext => ?_
    have hn := (hd.cuts text htext).child (List.mem_of_find?_eq_some hline)
    obtain ⟨-, hstop, -⟩ := hn
    exact hstop
  · exact d.cuts_zero

theorem careful_insertAtTop (text : Text) : Careful id (insertAtTop text) d := by
  unfold insertAtTop
  split
  · exact careful_pure _
  · exact yields_of_intact fun hd => yields_get_bind (careful_recordEdit hd.cuts_top hd.cuts_top)

end Document

namespace Handle

variable {d : Document} {h : Handle}

theorem Held.later {d' : Document} (hh : h.Held d) (hd : d.Precedes d') : h.Held d' := Kept.later hh hd

theorem careful_replaceWith (hh : h.Held d) (text : Text) : Careful id (h.replaceWith text) d := by
  refine yields_of_intact fun hd => Document.yields_look_bind (h.finds_node d) fun n hn => ?_
  obtain ⟨rfl, hsame⟩ := hn
  have hwithin := hh.standing hsame
  exact Document.careful_recordEdit (hd.cuts_start hwithin) (hd.cuts_stop hwithin)

/-- The lines that go with a node begin and end between characters. -/
theorem cuts_lineExtent {n : Node} (hstart : d.Cuts n.start) (hstop : d.Cuts n.stop) :
    d.Cuts (lineExtent d n).1 ∧ d.Cuts (lineExtent d n).2 := by
  unfold lineExtent
  dsimp only
  split
  · exact ⟨d.cuts_lineStart _, hstop.lineStop⟩
  · exact ⟨hstart, hstop⟩

theorem careful_remove (hh : h.Held d) : Careful id h.remove d := by
  refine yields_of_intact fun hd => Document.yields_look_bind (h.finds_node d) fun n hn => ?_
  obtain ⟨rfl, hsame⟩ := hn
  have hstart := hd.cuts_start (hh.standing hsame)
  have hstop := hd.cuts_stop (hh.standing hsame)
  refine yields_get_bind (Document.yields_look_bind (safe_isStatement hh) fun statement _ => ?_)
  dsimp only
  split
  · obtain ⟨hfirst, hlast⟩ := cuts_lineExtent hstart hstop
    exact Document.careful_recordEdit hfirst hlast
  · exact Document.careful_recordEdit hstart hstop

theorem careful_insertBefore (hh : h.Held d) (text : Text) : Careful id (h.insertBefore text) d := by
  refine yields_of_intact fun hd => Document.yields_look_bind (h.finds_node d) fun n hn => ?_
  obtain ⟨rfl, hsame⟩ := hn
  refine yields_get_bind ?_
  dsimp only
  split
  · exact Document.careful_recordEdit (d.cuts_lineStart _) (d.cuts_lineStart _)
  · have hstart := hd.cuts_start (hh.standing hsame)
    exact Document.careful_recordEdit hstart hstart

theorem careful_replaceBy (hh : h.Held d) {build : Handle → Looking (Option Text)}
    (hb : Safe d (build h)) : Careful id (h.replaceBy build) d := by
  refine Document.yields_look_bind hb fun text _ => ?_
  split
  · exact (careful_replaceWith hh _).bind fun _ _ _ => careful_pure _
  · exact careful_pure _

end Handle

namespace MatchSet

variable {α : Type} {p : Pattern} {build : Handle → Looking (Option Text)} {d : Document}

/-- What is found from held handles is replaced by what is built from the document. -/
theorem careful_replaceWith {roots : List Handle} (hroots : ∀ r ∈ roots, r.Held d) (hp : p.Discerns d)
    (hb : ∀ t h, Handle.Held t h → Safe t (build h)) :
    Careful id ((within roots p).replaceWith build) d := by
  refine Document.yields_look_bind (finds_members hroots hp) fun hs hheld => ?_
  split
  · exact careful_pure _
  · have heach : ∀ t, d.Precedes t → Careful id (do
        let counts ← hs.mapM (·.replaceBy build)
        return counts.foldr (· + ·) 0 : Editing Nat) t := by
      intro t ht
      refine Careful.bind (careful_mapM fun h hmem u hu => ?_) fun _ _ _ => careful_pure _
      have hh := (hheld h hmem).later (ht.trans hu)
      exact Handle.careful_replaceBy hh (hb _ h hh)
    exact Document.careful_editing (heach d (.refl d)) (heach _ d.precedes_opened)

/-- One round of such replacements in the whole tree, and what is done after it. -/
theorem careful_round {next : Nat → Editing α} (hp : p.Discerns d)
    (hb : ∀ t h, Handle.Held t h → Safe t (build h)) (hn : ∀ n t, Careful id (next n) t) :
    Careful id ((liftM (ofTree p) : Editing MatchSet) >>= fun set => set.replaceWith build >>= next) d := by
  refine Document.yields_look_bind (finds_ofTree p) fun set hset => ?_
  obtain ⟨roots, hroots, rfl⟩ := hset
  exact (careful_replaceWith hroots hp hb).bind fun n t _ => hn n t

end MatchSet

/-! ## Passes -/

namespace Pass

variable {α β : Type} {s : Session} {R : Document → β → Prop}

theorem careful_lift {edit : Editing α} (he : Careful id edit s.document) :
    Careful Session.document (lift edit) s := by
  intro hs x s' h
  obtain ⟨d, hedit, rfl⟩ := lift_leaves h
  exact he hs x d hedit

/-- What is careful with a session is so with its document. -/
theorem careful_onDocument {pass : Pass α} {d : Document} {file : Option String}
    {findings : List Diagnostic} (hp : Careful Session.document pass ⟨d, file, findings⟩) :
    Careful id (pass.onDocument file findings) d := by
  intro hd x d' h
  unfold Leaves onDocument at h
  cases hpass : pass ⟨d, file, findings⟩ with
  | ok a s =>
    rw [hpass] at h
    cases x with
    | error e => cases h
    | ok a' =>
      cases h
      exact hp hd (.ok a) s hpass
  | error e s =>
    rw [hpass] at h
    cases x with
    | ok a => cases h
    | error e' =>
      cases h
      exact hp hd (.error e) s hpass

theorem yields_look_bind {l : Looking α} {Q : α → Prop} {f : α → Pass β} (hl : Finds s.document l Q)
    (hf : ∀ a, Q a → Yields Session.document (f a) s R) :
    Yields Session.document ((liftM l : Pass α) >>= f) s R := by
  intro hs x s' h
  rcases h.bind with ⟨a, t, hlook, hrest⟩ | ⟨e, hlook, rfl⟩
  · obtain ⟨ha, rfl⟩ := look_ok hlook
    exact hf a ((hl hs).1 a ha) hs _ _ hrest
  · have hlooking : Careful id (liftM l : Editing α) s.document := by
      rw [← bind_pure (liftM l : Editing α)]
      exact Document.yields_look_bind hl fun a _ => careful_pure a
    obtain ⟨hs', hlater, -, hfails⟩ := careful_lift hlooking hs _ _ hlook
    exact ⟨hs', hlater, nofun, fun e' he' => Except.error.inj he' ▸ hfails e rfl⟩

theorem careful_replaceWith {p : Pattern} {build : Handle → Looking (Option Text)}
    (hp : p.Discerns s.document) (hb : ∀ t h, Handle.Held t h → Safe t (build h)) :
    Careful Session.document
      (do (← (MatchSet.ofTree p : Looking _)).replaceWith build : Pass Nat) s := by
  refine yields_look_bind (finds_ofTree p) fun set hset => careful_lift ?_
  obtain ⟨roots, hroots, rfl⟩ := hset
  exact MatchSet.careful_replaceWith hroots hp hb

theorem careful_report (code : DiagnosticCode) (message : String) (level : DiagnosticLevel)
    (line : Option Int) : Careful Session.document (report code message level line) s := by
  intro hs x s' h
  obtain ⟨rfl, rfl⟩ := Leaves.modify (f := fun s : Session =>
    { s with findings := s.findings ++ [⟨code, message, level, s.file, line⟩] }) h
  exact ⟨hs, .refl _, fun _ _ => trivial, nofun⟩

end Pass

end TestMigration
