import TestMigration.Proofs.FileConversion
import TestMigration.Proofs.Paving

/-! One file migrated on two disks. The second disk is the first one with what other migrations have
added, at places that are apart from those of the file. Then the migration answers the same on both, and
what it adds is the same: the two disks go abreast. -/

namespace TestMigration

/-! ## Work on two states -/

section Twofold

variable {σ α β : Type} {R : σ → σ → Prop} {s s' : σ}

/-- From these two states the computation gives one answer and leaves states that are related. -/
def Concurs (R : σ → σ → Prop) (m : EStateM Failure σ α) (s s' : σ) : Prop :=
  ∃ x t t', Leaves m s x t ∧ Leaves m s' x t' ∧ R t t'

/-- The computation does so from all states that are related. -/
def Twofold (R : σ → σ → Prop) (m : EStateM Failure σ α) : Prop := ∀ s s', R s s' → Concurs R m s s'

/-- What follows need only be so for the answers that there are. -/
theorem Concurs.bind_ok {m : EStateM Failure σ α} {f : α → EStateM Failure σ β} (hm : Concurs R m s s')
    (hf : ∀ a t, Leaves m s (.ok a) t → Twofold R (f a)) : Concurs R (m >>= f) s s' := by
  obtain ⟨x, t, t', hx, hx', ht⟩ := hm
  cases x with
  | ok a =>
    obtain ⟨y, u, u', hy, hy', hu⟩ := hf a t hx t t' ht
    exact ⟨y, u, u', hx.of_bind_ok.trans hy, hx'.of_bind_ok.trans hy', hu⟩
  | error e => exact ⟨.error e, t, t', hx.of_bind_error, hx'.of_bind_error, ht⟩

theorem Concurs.bind {m : EStateM Failure σ α} {f : α → EStateM Failure σ β} (hm : Concurs R m s s')
    (hf : ∀ a, Twofold R (f a)) : Concurs R (m >>= f) s s' := hm.bind_ok fun a _ _ => hf a

theorem Concurs.mono {R' : σ → σ → Prop} {m : EStateM Failure σ α} (hm : Concurs R m s s')
    (h : ∀ {t t'}, R t t' → R' t t') : Concurs R' m s s' := by
  obtain ⟨x, t, t', hx, hx', ht⟩ := hm
  exact ⟨x, t, t', hx, hx', h ht⟩

theorem Concurs.tryCatch {m : EStateM Failure σ α} {handler : Failure → EStateM Failure σ α}
    (hm : Concurs R m s s') (hh : ∀ e, Twofold R (handler e)) :
    Concurs R (MonadExcept.tryCatch m handler) s s' := by
  obtain ⟨x, t, t', hx, hx', ht⟩ := hm
  cases x with
  | ok a => exact ⟨.ok a, t, t', hx.tryCatch_ok handler, hx'.tryCatch_ok handler, ht⟩
  | error e =>
    obtain ⟨y, u, u', hy, hy', hu⟩ := hh e t t' ht
    exact ⟨y, u, u', hx.tryCatch_error hy, hx'.tryCatch_error hy', hu⟩

theorem twofold_pure (a : α) : Twofold R (pure a) := fun s s' h => ⟨.ok a, s, s', rfl, rfl, h⟩

theorem twofold_throw (e : Failure) : Twofold R (throw e : EStateM Failure σ α) :=
  fun s s' h => ⟨.error e, s, s', rfl, rfl, h⟩

theorem twofold_ofExcept (x : Except Failure α) :
    Twofold R (MonadExcept.ofExcept x : EStateM Failure σ α) := by
  cases x with
  | ok a => exact twofold_pure a
  | error e => exact twofold_throw e

theorem Twofold.bind_ok {m : EStateM Failure σ α} {f : α → EStateM Failure σ β} (hm : Twofold R m)
    (hf : ∀ a s t, Leaves m s (.ok a) t → Twofold R (f a)) : Twofold R (m >>= f) :=
  fun s s' h => (hm s s' h).bind_ok fun a t => hf a s t

theorem Twofold.bind {m : EStateM Failure σ α} {f : α → EStateM Failure σ β} (hm : Twofold R m)
    (hf : ∀ a, Twofold R (f a)) : Twofold R (m >>= f) := hm.bind_ok fun a _ _ _ => hf a

theorem Twofold.tryCatch {m : EStateM Failure σ α} {handler : Failure → EStateM Failure σ α}
    (hm : Twofold R m) (hh : ∀ e, Twofold R (handler e)) :
    Twofold R (MonadExcept.tryCatch m handler) := fun s s' h => (hm s s' h).tryCatch hh

theorem twofold_stepwise : Stepwise (EStateM Failure σ) fun _ m => Twofold R m where
  pure := twofold_pure
  bind := Twofold.bind

/-- What follows depends on a part of the state that both states have in common. -/
theorem concurs_get_bind {f : σ → EStateM Failure σ α} (hsame : f s' = f s) (hf : Concurs R (f s) s s') :
    Concurs R (get >>= f) s s' := by
  obtain ⟨x, t, t', hx, hx', ht⟩ := hf
  rw [← hsame] at hx'
  exact ⟨x, t, t', hx, hx', ht⟩

end Twofold

/-! ### Parts of a pipeline -/

section Parts

variable {σ α : Type} {R : σ → σ → Prop} {c : Context} {input : Option Datum}

/-- The states that two runs work on are related, whatever they have published. -/
def OnState (R : σ → σ → Prop) (r r' : Running σ) : Prop := R r.state r'.state

theorem twofold_publish (c : Context) (detail : EventDetail) :
    Twofold (OnState R) (Work.publish c detail) := fun _ _ h => ⟨.ok (), _, _, rfl, rfl, h⟩

theorem Concurs.onState {m : EStateM Failure σ α} {r r' : Running σ} (hm : Concurs R m r.state r'.state) :
    Concurs (OnState R) (Work.onState m) r r' := by
  obtain ⟨x, t, t', hx, hx', ht⟩ := hm
  exact ⟨x, { r with state := t }, { r' with state := t' }, hx.of_state, hx'.of_state, ht⟩

theorem Twofold.onState {m : EStateM Failure σ α} (hm : Twofold R m) :
    Twofold (OnState R) (Work.onState m) := fun _ _ h => (hm _ _ h).onState

theorem Step.twofold {p : Step σ} (h : Twofold (OnState R) (p.execute c input)) :
    Twofold (OnState R) (p.run c input) := by
  refine (twofold_publish _ _).bind fun _ => Twofold.bind ?_ fun o => ?_
  · exact h.tryCatch fun e => (twofold_publish _ _).bind fun _ => twofold_pure _
  · exact (twofold_publish _ _).bind fun _ => twofold_pure _

theorem Task.twofold {t : Task σ}
    (h : ∀ p ∈ t.steps, ∀ input, Twofold (OnState R) (p.execute c input)) (input : Option Datum) :
    Twofold (OnState R) (t.execute c input) := by
  have hfrom : ∀ steps : List (Step σ), (∀ p ∈ steps, ∀ input, Twofold (OnState R) (p.execute c input)) →
      ∀ done input, Twofold (OnState R) (t.executeFrom c steps done input) := by
    intro steps hsteps
    induction steps with
    | nil => exact fun _ _ => twofold_pure _
    | cons p rest ih =>
      intro done input
      refine (Step.twofold (hsteps p List.mem_cons_self input)).bind fun o => ?_
      split
      · exact twofold_pure _
      · exact ih (fun q hq => hsteps q (List.mem_cons_of_mem p hq)) _ _
  exact hfrom t.steps h [] input

/-- A job with one task. -/
theorem Job.twofold {j : Job σ} {t : Task σ} (ht : j.tasks = [t])
    (hprepare : Twofold (OnState R) (j.prepare c input))
    (htask : ∀ input, Twofold (OnState R) (t.execute c input)) :
    Twofold (OnState R) (j.execute c input) := by
  refine hprepare.bind fun prepared => ?_
  cases prepared with
  | error o => exact twofold_pure _
  | ok input =>
    refine (twofold_publish _ _).bind fun _ => ?_
    rw [ht]
    refine (htask input).bind fun o => ?_
    split
    · exact (twofold_publish _ _).bind fun _ => twofold_pure _
    · exact (twofold_publish _ _).bind fun _ => twofold_pure _

end Parts

/-! ## Two disks -/

namespace Disk

/-- Between `d` and `d'` others have been at work. On `e` and `e'`, which come after them, the same has
been done at some places of its own. -/
structure Abreast (own : List Route) (d d' e e' : Disk) : Prop where
  grows : Grows own d e
  cwd : e'.cwd = d.cwd
  same : ∀ {p}, d'.get? p = d.get? p → e'.get? p = e.get? p
  kept : ∀ {p}, d'.get? p ≠ d.get? p → e'.get? p = d'.get? p
  inside : e.Inside
  inside' : e'.Inside

/-- What others have added to a disk is apart from the places of a file. -/
structure Meanwhile (others own : List Route) (d d' : Disk) : Prop where
  stands : d.get? d.cwd = some .directory
  inside : d.Inside
  inside' : d'.Inside
  grows : Grows others d d'
  apart : ∀ t ∈ others, ∀ u ∈ own, ¬ t <+: u ∧ ¬ u <+: t

/-- A path that can be used: what is missing of it is named plainly, and it is apart from what others
have added. -/
structure Usable (others : List Route) (d : Disk) (name : PathName) : Prop where
  proper : name.Proper
  plain : d.plainly name = true
  apart : ∀ t ∈ others, ¬ t <+: d.placeFor name ∧ ¬ d.placeFor name <+: t

variable {others own : List Route} {d d' e e' : Disk} {name : PathName} {p : Route}

theorem Meanwhile.abreast (h : Meanwhile others own d d') : Abreast own d d' d d' :=
  ⟨.refl own d, h.grows.cwd, id, fun _ => rfl, h.inside, h.inside'⟩

theorem Meanwhile.changed (h : Meanwhile others own d d') (hp : d'.get? p ≠ d.get? p) :
    d'.get? p ≠ none := by
  rcases h.grows.change p with he | ⟨-, hdir, -⟩ | ⟨-, -, bytes, hfile⟩
  · exact absurd he hp
  · simp [hdir]
  · simp [hfile]

namespace Abreast

theorem stands (h : Abreast own d d' e e') (hm : Meanwhile others own d d') :
    e.get? e.cwd = some .directory := h.grows.stands hm.stands

/-- What is new on the second disk is what others have added. -/
theorem added (h : Abreast own d d' e e') (hm : Meanwhile others own d d') :
    Grows others e e' where
  cwd := h.cwd.trans h.grows.cwd.symm
  change p := by
    by_cases hp : d'.get? p = d.get? p
    · exact .inl (h.same hp)
    rw [h.kept hp]
    rcases hm.grows.change p with he | ⟨hnone, hdir, t, ht, hbegins, hne⟩ | ⟨hmem, hno, bytes, hfile⟩
    · exact absurd he hp
    · rcases h.grows.change p with he | ⟨-, hdir', -⟩ | ⟨hown, -⟩
      · exact .inr (.inl ⟨he.trans hnone, hdir, t, ht, hbegins, hne⟩)
      · exact .inl (hdir.trans hdir'.symm)
      · exact absurd hbegins (hm.apart t ht p hown).2
    · rcases h.grows.change p with he | ⟨-, -, u, hu, hbegins, -⟩ | ⟨hown, -⟩
      · exact .inr (.inr ⟨hmem, he ▸ hno, bytes, hfile⟩)
      · exact absurd hbegins (hm.apart p hmem u hu).1
      · exact absurd List.prefix_rfl (hm.apart p hmem p hown).1

end Abreast

/-- The disk that a path is used on has grown in the meantime. -/
theorem Usable.later (h : Usable others d name) (hg : Grows own d e) : Usable others e name where
  proper := h.proper
  plain := hg.plainly h.plain
  apart := by
    rw [placeFor_of_cwd hg.cwd]
    exact h.apart

theorem Abreast.see (h : Abreast own d d' e e') (hm : Meanwhile others own d d')
    (hname : Usable others d name) : e'.see (toString name) = e.see (toString name) := by
  have hlater := hname.later h.grows
  exact (h.added hm).see h.inside (h.stands hm) hlater.proper hlater.plain hlater.apart

/-- One of the places of its own is given contents on both disks. -/
theorem Abreast.put (h : Abreast own d d' e e') (hm : Meanwhile others own d d') {bytes : ByteArray}
    (hp : p ∈ own) (hparent : e.get? p.dropLast = some .directory)
    (hparent' : e'.get? p.dropLast = some .directory) (hno : e.get? p ≠ some .directory)
    (hno' : e'.get? p ≠ some .directory) :
    Abreast own d d' (e.put p (.file bytes)) (e'.put p (.file bytes)) := by
  have hroot : p ≠ [] := by
    rintro rfl
    exact hno rfl
  have hput : Grows own e (e.put p (.file bytes)) := by
    refine ⟨rfl, fun q => ?_⟩
    by_cases hq : q = p
    · rw [hq, get?_put_self hroot]
      exact .inr (.inr ⟨hp, hno, bytes, rfl⟩)
    · exact .inl (get?_put_of_ne hroot hq e _)
  refine ⟨h.grows.trans hput, h.cwd, fun {q} hq => ?_, fun {q} hq => ?_, h.inside.put hparent hno,
    h.inside'.put hparent' hno'⟩
  · by_cases hsame : q = p
    · rw [hsame, get?_put_self hroot, get?_put_self hroot]
    · rw [get?_put_of_ne hroot hsame, get?_put_of_ne hroot hsame, h.same hq]
  · have hne : q ≠ p := by
      rintro rfl
      exact hq (hm.grows.same fun t ht => (hm.apart t ht q hp).2)
    rw [get?_put_of_ne hroot hne, h.kept hq]

/-- The way to the directory of one of the places of its own is made on both disks. -/
theorem Abreast.paved (h : Abreast own d d' e e') (hm : Meanwhile others own d d') {q : Route}
    {f f' : Disk} (hpaved : Paved q e f) (hpaved' : Paved q e' f') (hf : f.Inside) (hf' : f'.Inside)
    (hown : e.get? q = none → ∃ t ∈ own, ∃ last, t = q ++ [last]) : Abreast own d d' f f' := by
  have hgrows : Grows own e f := by
    refine ⟨hpaved.cwd, fun r => ?_⟩
    by_cases hr : r <+: q ∧ e.get? r = none
    · obtain ⟨hbegins, hnone⟩ := hr
      obtain ⟨rest, rfl⟩ := hbegins
      obtain ⟨t, ht, last, rfl⟩ := hown (h.inside.below hnone rest)
      refine .inr (.inl ⟨hnone, hpaved.made (List.prefix_append r rest) hnone, _, ht, ?_, ?_⟩)
      · exact (List.prefix_append r rest).trans (List.prefix_append _ _)
      · intro he
        have hlength := congrArg List.length he
        rw [List.length_append, List.length_append, List.length_singleton] at hlength
        omega
    · exact .inl (hpaved.kept hr)
  refine ⟨h.grows.trans hgrows, hpaved'.cwd.trans h.cwd, fun {r} hr => ?_, fun {r} hr => ?_, hf, hf'⟩
  · have hsame := h.same hr
    by_cases hnew : r <+: q ∧ e.get? r = none
    · rw [hpaved.made hnew.1 hnew.2, hpaved'.made hnew.1 (hsame.trans hnew.2)]
    · rw [hpaved.kept hnew, hpaved'.kept (by rwa [hsame]), hsame]
  · have hthere := h.kept hr
    rw [hpaved'.kept, hthere]
    rintro ⟨-, hnone⟩
    exact hm.changed hr (hthere.symm.trans hnone)

end Disk

/-! ## Operations -/

namespace Filing

open Disk (Abreast Meanwhile Usable)

/-- The operation leaves the disk as it is, and its answer depends on what is seen at a path. -/
def Sees {α : Type} (path : String) (m : Filing α) : Prop :=
  ∃ answer : Except Fault Item → Except Failure α, ∀ d, Leaves m d (answer (d.see path)) d

theorem sees_of_find {α : Type} {path operation : String} {m : Route → Filing α}
    (answer : Except Fault Item → Except Failure α)
    (hfail : ∀ f, answer (.error f) = .error (f.failure path operation))
    (hnone : ∀ d p, d.get? p = none → Leaves (m p) d (.error (Fault.missing.failure path operation)) d)
    (hsome : ∀ d p item, d.get? p = some item → Leaves (m p) d (answer (.ok item)) d) :
    Sees path (find path operation >>= m) := by
  refine ⟨answer, fun d => ?_⟩
  cases hfind : d.find path with
  | error f =>
    rw [Disk.see_of_error hfind, hfail]
    exact (find_leaves_error hfind operation).of_bind_error
  | ok p =>
    unfold Leaves
    rw [(find_of_ok hfind operation).of_bind_ok]
    cases hitem : d.get? p with
    | none =>
      rw [Disk.see_of_none hfind hitem, hfail]
      exact hnone d p hitem
    | some item =>
      rw [Disk.see_of_some hfind hitem]
      exact hsome d p item hitem

theorem sees_size (path : String) : Sees path (size path) := by
  refine sees_of_find (fun
    | .error f => .error (f.failure path "stat")
    | .ok .directory => .ok 4096
    | .ok (.file bytes) => .ok bytes.size) (fun _ => rfl) (fun d p hnone => ?_) fun d p item hitem => ?_
  · unfold Leaves
    rw [(Leaves.of_get d).of_bind_ok, hnone]
    rfl
  · unfold Leaves
    rw [(Leaves.of_get d).of_bind_ok, hitem]
    cases item <;> rfl

theorem sees_readBytes (path : String) : Sees path (readBytes path) := by
  refine sees_of_find (fun
    | .error f => .error (f.failure path "open")
    | .ok .directory => .error (Fault.isDirectory.failure path "open")
    | .ok (.file bytes) => .ok bytes) (fun _ => rfl) (fun d p hnone => ?_) fun d p item hitem => ?_
  · unfold Leaves
    rw [(Leaves.of_get d).of_bind_ok, hnone]
    rfl
  · unfold Leaves
    rw [(Leaves.of_get d).of_bind_ok, hitem]
    cases item <;> rfl

section Sees

variable {α β : Type} {R : Disk → Disk → Prop} {path : String} {m : Filing α}

/-- What follows begins on the disks as they are. -/
theorem Sees.concurs_bind {e e' : Disk} {f : α → Filing β} (h : Sees path m) (hR : R e e')
    (hsee : e'.see path = e.see path) (hf : ∀ a, Concurs R (f a) e e') : Concurs R (m >>= f) e e' := by
  obtain ⟨answer, hanswer⟩ := h
  have hleaves := hanswer e
  have hleaves' := hanswer e'
  rw [hsee] at hleaves'
  cases ha : answer (e.see path) with
  | ok a =>
    rw [ha] at hleaves hleaves'
    obtain ⟨x, t, t', hx, hx', ht⟩ := hf a
    exact ⟨x, t, t', hleaves.of_bind_ok.trans hx, hleaves'.of_bind_ok.trans hx', ht⟩
  | error f =>
    rw [ha] at hleaves hleaves'
    exact ⟨.error f, e, e', hleaves.of_bind_error, hleaves'.of_bind_error, hR⟩

theorem Sees.twofold (h : Sees path m) (hsee : ∀ {e e'}, R e e' → e'.see path = e.see path) :
    Twofold R m := by
  intro e e' hR
  obtain ⟨answer, hanswer⟩ := h
  refine ⟨_, e, e', hanswer e, ?_, hR⟩
  rw [← hsee hR]
  exact hanswer e'

theorem twofold_readText (hsee : ∀ {e e'}, R e e' → e'.see path = e.see path) :
    Twofold R (readText path) :=
  ((sees_readBytes path).twofold hsee).bind fun _ => twofold_ofExcept _

end Sees

/-- Once the place is known, it depends on what stands there whether it takes what is written. -/
theorem writeBytes_of_found (path : String) (bytes : ByteArray) (item : Option Item) :
    (∃ f, ∀ e p, e.find path = .ok p → e.get? p = item →
      Leaves (writeBytes path bytes) e (.error f) e) ∨
    item ≠ some .directory ∧ ∀ e p, e.find path = .ok p → e.get? p = item →
      Leaves (writeBytes path bytes) e (.ok ()) (e.put p (.file bytes)) := by
  have hopen : ∀ {e p}, e.find path = .ok p → writeBytes path bytes e = _ := fun {e p} he =>
    (find_of_ok he "open").of_bind_ok.trans (Leaves.of_get e).of_bind_ok
  unfold Leaves
  rcases item with _ | item
  · by_cases hslash : path.endsWith "/" = true
    · refine .inl ⟨Fault.isDirectory.failure path "open", fun e p he hitem => ?_⟩
      rw [hopen he, hitem]
      dsimp only
      rw [if_pos hslash]
      rfl
    · refine .inr ⟨by simp, fun e p he hitem => ?_⟩
      rw [hopen he, hitem]
      dsimp only
      rw [if_neg hslash]
      rfl
  · cases item with
    | directory =>
      refine .inl ⟨Fault.isDirectory.failure path "open", fun e p he hitem => ?_⟩
      rw [hopen he, hitem]
      rfl
    | file old =>
      refine .inr ⟨by simp, fun e p he hitem => ?_⟩
      rw [hopen he, hitem]
      rfl

section Abreast

variable {others own : List Route} {d d' e e' : Disk} {name : PathName}

/-- An operation that makes the directory of a path: it fails in one way on both disks, or the path
leads somewhere on both. -/
def Readies (own : List Route) (d d' : Disk) (name : PathName) (m : Filing Unit) : Prop :=
  ∀ {e e'}, Abreast own d d' e e' →
    (∃ f, Leaves m e (.error f) e ∧ Leaves m e' (.error f) e') ∨
    ∃ t t', Leaves m e (.ok ()) t ∧ Leaves m e' (.ok ()) t' ∧ Abreast own d d' t t' ∧
      t.find (toString name) ≠ .error .missing

theorem find_ne_missing (stands : e.get? e.cwd = some .directory) (hname : name.Proper)
    (hleads : e.follow (e.base name.parent) name.parent.parts = .ok (e.placeFor name.parent))
    (hdir : e.get? (e.placeFor name.parent) = some .directory) :
    e.find (toString name) ≠ .error .missing := by
  rcases Disk.find_cases name with ⟨hclean, hshort⟩ | ⟨f, hf, hall⟩
  · rw [Disk.find_toString hname stands hclean hshort]
    change e.follow (e.base name) name.parts.dropLast = _ at hleads
    by_cases hparts : name.parts = []
    · rw [hparts, Disk.follow]
      intro he
      cases he
    · rw [← List.dropLast_append_getLast hparts, Disk.follow_append, hleads]
      dsimp only
      have hlast := hname _ (List.getLast_mem hparts)
      by_cases hlong : name.parts.getLast hparts ≠ ".." ∧ (name.parts.getLast hparts).utf8ByteSize > 255
      · rw [Disk.follow_long hdir ⟨hlast.1, hlast.2.1⟩ hlong]
        intro he
        cases he
      · rw [Disk.follow_step hdir ⟨hlast.1, hlast.2.1⟩ hlong, Disk.follow]
        intro he
        cases he
  · rw [hall]
    exact fun he => hf (Except.error.inj he)

theorem plainly_parent (h : d.plainly name = true) : d.plainly name.parent = true := by
  by_cases hparts : name.parts = []
  · unfold Disk.plainly PathName.parent
    rw [hparts]
    rfl
  · unfold Disk.plainly at h
    rw [← List.dropLast_append_getLast hparts] at h
    exact Disk.plainFrom_of_append h

theorem readies_ensureDirectory (hm : Meanwhile others own d d') (hname : Usable others d name)
    (hown : d.placeFor name ∈ own) : Readies own d d' name (ensureDirectory name.parent) := by
  intro e e' h
  have stands := h.stands hm
  have hadded := h.added hm
  have stands' := hadded.stands stands
  have hlater := hname.later h.grows
  have hproper := hname.proper.parent
  have hplain := plainly_parent hlater.plain
  have hbelow : e.see (toString name.parent) = .error .missing →
      ∃ last, e.placeFor name = e.placeFor name.parent ++ [last] :=
    Disk.placeFor_of_missing h.inside stands hname.proper hlater.plain
  have hblocked : e'.blocked? (toString name.parent) = e.blocked? (toString name.parent) := by
    refine hadded.blocked h.inside stands hproper hplain fun hmissing t ht hbegins => ?_
    obtain ⟨last, hlast⟩ := hbelow hmissing
    refine (hlater.apart t ht).1 ?_
    rw [hlast]
    exact hbegins.trans (List.prefix_append _ _)
  rcases ensureDirectory_cases h.inside stands hproper hplain with
    ⟨f, hf, hleaves⟩ | ⟨hfree, t, hpaves⟩
  · rcases ensureDirectory_cases h.inside' stands' hproper (hadded.plainly hplain) with
      ⟨f', hf', hleaves'⟩ | ⟨hfree', -⟩
    · rw [hblocked, hf] at hf'
      cases hf'
      exact .inl ⟨_, hleaves, hleaves'⟩
    · rw [hblocked, hf] at hfree'
      cases hfree'
  · rcases ensureDirectory_cases h.inside' stands' hproper (hadded.plainly hplain) with
      ⟨f', hf', -⟩ | ⟨-, t', hpaves'⟩
    · rw [hblocked, hfree] at hf'
      cases hf'
    · have hpaved' := hpaves'.paved
      rw [Disk.placeFor_of_cwd hadded.cwd] at hpaved'
      have habreast : Abreast own d d' t t' := by
        refine h.paved hm hpaves.paved hpaved' hpaves.inside hpaves'.inside fun hnone => ?_
        obtain ⟨last, hlast⟩ := hbelow (Disk.missing_of_none stands hproper hfree hnone)
        exact ⟨_, hown, last, by rw [← hlast, Disk.placeFor_of_cwd h.grows.cwd]⟩
      refine .inr ⟨t, t', hpaves.leaves, hpaves'.leaves, habreast, ?_⟩
      refine find_ne_missing (habreast.stands hm) hname.proper ?_ ?_
      · rw [Disk.base_eq hpaves.paved.cwd, Disk.placeFor_of_cwd hpaves.paved.cwd]
        exact hpaves.leads
      · rw [Disk.placeFor_of_cwd hpaves.paved.cwd]
        exact hpaves.directory

theorem readies_ensureParent (hm : Meanwhile others own d d') (hname : Usable others d name)
    (hown : d.placeFor name ∈ own) : Readies own d d' name (ensureParent name) := by
  intro e e' h
  rcases readies_ensureDirectory hm hname hown h with ⟨f, hf, hf'⟩ | ⟨t, t', ht, ht', hrest⟩
  · refine .inl ?_
    unfold ensureParent
    by_cases hkind : f.kind.isSystem = true
    · refine ⟨.invalidPath s!"Cannot create parent directory: {f.shown}" "parent_creation"
        (toString name.parent), hf.tryCatch_error ?_, hf'.tryCatch_error ?_⟩
      · rw [if_pos hkind]
        rfl
      · rw [if_pos hkind]
        rfl
    · refine ⟨f, hf.tryCatch_error ?_, hf'.tryCatch_error ?_⟩
      · rw [if_neg hkind]
        rfl
      · rw [if_neg hkind]
        rfl
  · exact .inr ⟨t, t', ht.tryCatch_ok _, ht'.tryCatch_ok _, hrest⟩

/-- Once a path leads somewhere, both disks take what is written to it, or neither does. -/
theorem concurs_writeBytes (hm : Meanwhile others own d d') (hname : Usable others d name)
    (hown : d.placeFor name ∈ own) (h : Abreast own d d' e e')
    (hready : e.find (toString name) ≠ .error .missing) (bytes : ByteArray) :
    Concurs (Abreast own d d') (writeBytes (toString name) bytes) e e' := by
  have stands := h.stands hm
  have hadded := h.added hm
  have hlater := hname.later h.grows
  have hfind : e'.find (toString name) = e.find (toString name) := by
    rcases hadded.find h.inside stands hname.proper hlater.plain
      (fun hmissing => absurd hmissing hready) with he | ⟨hmissing, -⟩
    · exact he
    · exact absurd hmissing hready
  cases hp : e.find (toString name) with
  | error f =>
    exact ⟨.error (f.failure (toString name) "open"), e, e',
      (find_leaves_error hp "open").of_bind_error,
      (find_leaves_error (hfind.trans hp) "open").of_bind_error, h⟩
  | ok p =>
    have hp' := hfind.trans hp
    have hplace := Disk.find_placeFor stands hname.proper hp
    have hsame : e'.get? p = e.get? p := by
      refine hadded.same fun t ht => ?_
      rw [hplace]
      exact (hlater.apart t ht).2
    rcases writeBytes_of_found (toString name) bytes (e.get? p) with ⟨f, hf⟩ | ⟨hno, hok⟩
    · exact ⟨.error f, e, e', hf e p hp rfl, hf e' p hp' hsame, h⟩
    · have hown' : p ∈ own := by
        rw [hplace, Disk.placeFor_of_cwd h.grows.cwd]
        exact hown
      exact ⟨.ok (), _, _, hok e p hp rfl, hok e' p hp' hsame,
        h.put hm hown' (Disk.parent_of_find h.inside stands hname.proper hp)
          (Disk.parent_of_find h.inside' (hadded.stands stands) hname.proper hp') hno
          (hsame ▸ hno)⟩

/-- A copy is kept on both disks, or on neither. -/
theorem twofold_keepCopy (hm : Meanwhile others own d d') {source : PathName}
    {directory : Option String} (hsource : Usable others d source)
    (hcopy : Usable others d ((PathName.ofString (toString source)).backup directory))
    (hown : d.placeFor ((PathName.ofString (toString source)).backup directory) ∈ own) :
    Twofold (Abreast own d d') (Phase.keepCopy (toString source) directory) := by
  intro e e' h
  unfold Phase.keepCopy
  dsimp only
  rcases readies_ensureDirectory hm hcopy hown h with ⟨f, hf, hf'⟩ | ⟨t, t', ht, ht', habreast, hready⟩
  · exact ⟨.error f, e, e', hf.of_bind_error, hf'.of_bind_error, h⟩
  have hrest : Concurs (Abreast own d d')
      (do if !(← get).exists? (toString ((PathName.ofString (toString source)).backup directory)) then
            copy (toString source) (toString ((PathName.ofString (toString source)).backup directory)))
      t t' := by
    have hthere : t'.exists? (toString ((PathName.ofString (toString source)).backup directory)) =
        t.exists? (toString ((PathName.ofString (toString source)).backup directory)) := by
      unfold Disk.exists?
      rw [Disk.item?_eq_see, Disk.item?_eq_see, habreast.see hm hcopy]
    refine concurs_get_bind (by rw [hthere]) ?_
    split
    · exact (sees_readBytes _).concurs_bind habreast (habreast.see hm hsource) fun bytes =>
        concurs_writeBytes hm hcopy hown habreast hready bytes
    · exact twofold_pure () t t' habreast
  obtain ⟨x, u, u', hx, hx', hu⟩ := hrest
  exact ⟨x, u, u', ht.of_bind_ok.trans hx, ht'.of_bind_ok.trans hx', hu⟩

end Abreast

end Filing

end TestMigration
