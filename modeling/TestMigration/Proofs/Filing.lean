import TestMigration.Proofs.Place
import TestMigration.Proofs.Leaves

/-! What operations on a disk leave behind, whether they are carried out or fail. Reading leaves
the disk as it is, making directories adds directories only, and writing gives one place new
contents. -/

namespace TestMigration

/-! ## Reading -/

/-- The operation leaves the disk as it is. -/
def Reads {α : Type} (m : Filing α) : Prop := Relates Eq m

theorem reads_stepwise : Stepwise Filing @Reads :=
  relates_stepwise (fun _ => rfl) fun h h' => h.trans h'

section Reads

variable {α β : Type}

theorem reads_pure (a : α) : Reads (pure a) := reads_stepwise.pure a

theorem Reads.bind {m : Filing α} {f : α → Filing β} (hm : Reads m) (hf : ∀ a, Reads (f a)) :
    Reads (m >>= f) := reads_stepwise.bind hm hf

theorem reads_throw (e : Failure) : Reads (throw e : Filing α) := by
  intro d x d' h
  exact h.throw.2.symm

theorem reads_get : Reads (get : Filing Disk) := by
  intro d x d' h
  exact h.get.2.symm

theorem reads_ofExcept (y : Except Failure α) : Reads (MonadExcept.ofExcept y : Filing α) := by
  intro d x d' h
  exact h.ofExcept.2.symm

end Reads

namespace Filing

theorem find_leaves {path operation : String} {d d' : Disk} {x : Except Failure Route}
    (h : Leaves (find path operation) d x d') :
    d' = d ∧ x = (d.find path).mapError (Fault.failure path operation) := by
  have h := h.get_bind
  cases hf : d.find path with
  | ok p =>
    rw [hf] at h
    obtain ⟨rfl, rfl⟩ := h.pure
    exact ⟨rfl, rfl⟩
  | error f =>
    rw [hf] at h
    obtain ⟨rfl, rfl⟩ := h.throw
    exact ⟨rfl, rfl⟩

theorem find_leaves_ok {path operation : String} {d d' : Disk} {p : Route}
    (h : Leaves (find path operation) d (.ok p) d') : d' = d ∧ d.find path = .ok p := by
  obtain ⟨hd, hx⟩ := find_leaves h
  refine ⟨hd, ?_⟩
  cases hf : d.find path with
  | ok q =>
    rw [hf] at hx
    cases hx
    rfl
  | error f =>
    rw [hf] at hx
    cases hx

theorem find_of_ok {path : String} {d : Disk} {p : Route} (h : d.find path = .ok p)
    (operation : String) : Leaves (find path operation) d (.ok p) d := by
  unfold find Leaves
  rw [(Leaves.of_get d).of_bind_ok, h]
  rfl

theorem reads_find (path operation : String) : Reads (find path operation) := by
  intro d x d' h
  exact (find_leaves h).1.symm

theorem reads_size (path : String) : Reads (size path) := by
  refine (reads_find path "stat").bind fun p => reads_get.bind fun d => ?_
  split
  · exact reads_throw _
  · exact reads_pure _
  · exact reads_pure _

theorem reads_readBytes (path : String) : Reads (readBytes path) := by
  refine (reads_find path "open").bind fun p => reads_get.bind fun d => ?_
  split
  · exact reads_throw _
  · exact reads_throw _
  · exact reads_pure _

theorem reads_readText (path : String) : Reads (readText path) :=
  (reads_readBytes path).bind fun _ => reads_ofExcept _

theorem readBytes_leaves_ok {path : String} {d d' : Disk} {bytes : ByteArray}
    (h : Leaves (readBytes path) d (.ok bytes) d') :
    d' = d ∧ ∃ p, d.find path = .ok p ∧ d.get? p = some (.file bytes) := by
  refine ⟨(reads_readBytes path _ _ _ h).symm, ?_⟩
  rcases h.bind with ⟨p, t, h, h'⟩ | ⟨e, -, he⟩
  · obtain ⟨rfl, hp⟩ := find_leaves_ok h
    refine ⟨p, hp, ?_⟩
    have h' := h'.get_bind
    split at h'
    · cases h'.throw.1
    · cases h'.throw.1
    · rename_i hitem
      cases h'.pure.1
      exact hitem
  · cases he

theorem readText_leaves_ok {path text : String} {d d' : Disk}
    (h : Leaves (readText path) d (.ok text) d') :
    d' = d ∧ ∃ p bytes, d.find path = .ok p ∧ d.get? p = some (.file bytes) ∧
      textOfBytes bytes = .ok text := by
  unfold readText at h
  rcases h.bind with ⟨bytes, t, h, h'⟩ | ⟨e, -, he⟩
  · obtain ⟨rfl, p, hp, hitem⟩ := readBytes_leaves_ok h
    obtain ⟨htext, rfl⟩ := h'.ofExcept
    exact ⟨rfl, p, bytes, hp, hitem, htext.symm⟩
  · cases he

theorem readText_of_file {path text : String} {d : Disk} {p : Route} {bytes : ByteArray}
    (hp : d.find path = .ok p) (hitem : d.get? p = some (.file bytes))
    (htext : textOfBytes bytes = .ok text) : readText path d = .ok text d := by
  have hread : Leaves (readBytes path) d (.ok bytes) d := by
    unfold readBytes Leaves
    rw [(find_of_ok hp "open").of_bind_ok, (Leaves.of_get d).of_bind_ok, hitem]
    rfl
  unfold readText
  rw [hread.of_bind_ok, htext]
  rfl

/-! ## Writing -/

/-- A write fails and changes nothing, or gives one place new contents. -/
theorem writeBytes_leaves {path : String} {bytes : ByteArray} {d d' : Disk} {x : Except Failure Unit}
    (h : Leaves (writeBytes path bytes) d x d') :
    d' = d ∧ (∃ e, x = .error e) ∨
      x = .ok () ∧ ∃ p, d.find path = .ok p ∧ d.get? p ≠ some .directory ∧
        d' = d.put p (.file bytes) := by
  rcases h.bind with ⟨p, t, hf, h'⟩ | ⟨e, hf, rfl⟩
  · obtain ⟨rfl, hp⟩ := find_leaves_ok hf
    have h' := h'.get_bind
    split at h'
    · obtain ⟨rfl, rfl⟩ := h'.throw
      exact .inl ⟨rfl, _, rfl⟩
    · rename_i hitem
      obtain ⟨rfl, rfl⟩ := h'.modify
      exact .inr ⟨rfl, p, hp, by simp [hitem], rfl⟩
    · rename_i hitem
      split at h'
      · obtain ⟨rfl, rfl⟩ := h'.throw
        exact .inl ⟨rfl, _, rfl⟩
      · obtain ⟨rfl, rfl⟩ := h'.modify
        exact .inr ⟨rfl, p, hp, by simp [hitem], rfl⟩
  · exact .inl ⟨(reads_find _ _ _ _ _ hf).symm, e, rfl⟩

/-- A copy is made where nothing stood. -/
theorem copy_leaves {source target : String} {d d' : Disk} {x : Except Failure Unit}
    (hcwd : ".." ∉ d.cwd) (hfree : d.exists? target = false) (h : Leaves (copy source target) d x d') :
    Disk.Gains (fun p bytes => p = placeOf d.cwd target ∧
        d.get? (placeOf d.cwd source) = some (.file bytes)) d d' ∧
      (x = .ok () → d'.get? (placeOf d.cwd target) ≠ none) := by
  rcases h.bind with ⟨bytes, t, hread, hwrite⟩ | ⟨e, hread, rfl⟩
  · obtain ⟨rfl, p, hp, hitem⟩ := readBytes_leaves_ok hread
    cases Disk.find_place hcwd hp
    rcases writeBytes_leaves hwrite with ⟨rfl, e, rfl⟩ | ⟨rfl, q, hq, -, rfl⟩
    · refine ⟨Disk.Gains.refl _, ?_⟩
      intro he
      cases he
    · have hnone : t.get? q = none := by
        unfold Disk.exists? Disk.item? at hfree
        rw [hq] at hfree
        simpa [Except.toOption] using hfree
      cases Disk.find_place hcwd hq
      refine ⟨Disk.Gains.put_file hnone ⟨rfl, hitem⟩, ?_⟩
      intro _
      have hroot : placeOf t.cwd target ≠ [] := by
        intro he
        rw [he] at hnone
        cases hnone
      rw [Disk.get?_put_self hroot]
      simp
  · cases reads_readBytes _ _ _ _ hread
    refine ⟨Disk.Gains.refl _, ?_⟩
    intro he
    cases he

/-! ## Making directories -/

/-- The operation adds directories, and nothing else. -/
def Builds {α : Type} (m : Filing α) : Prop := Relates (Disk.Gains fun _ _ => False) m

theorem Builds.tryCatch {α : Type} {m : Filing α} {handler : Failure → Filing α} (hm : Builds m)
    (hh : ∀ e, Builds (handler e)) : Builds (MonadExcept.tryCatch m handler) :=
  Relates.tryCatch (R := Disk.Gains fun _ _ => False) (fun h h' => h.trans h') hm hh

theorem Builds.bind {α β : Type} {m : Filing α} {f : α → Filing β} (hm : Builds m)
    (hf : ∀ a, Builds (f a)) : Builds (m >>= f) :=
  (relates_stepwise (R := Disk.Gains fun _ _ => False) Disk.Gains.refl
    fun h h' => h.trans h').bind hm hf

theorem builds_of_reads {α : Type} {m : Filing α} (hm : Reads m) : Builds m := by
  intro d x d' h
  cases hm d x d' h
  exact Disk.Gains.refl d

theorem builds_makeDirectory (path : String) : Builds (makeDirectory path) := by
  refine (builds_of_reads (reads_find path "mkdir")).bind fun p => ?_
  intro d x d' h
  have h := h.get_bind
  split at h
  · obtain ⟨-, rfl⟩ := h.throw
    exact Disk.Gains.refl _
  · rename_i hnone
    obtain ⟨-, rfl⟩ := h.modify
    exact Disk.Gains.put_directory hnone

theorem builds_ensureOne (p : PathName) : Builds (ensureOne p) := by
  refine (builds_makeDirectory _).tryCatch fun e => builds_of_reads (reads_get.bind fun d => ?_)
  split
  · exact reads_pure _
  · exact reads_throw _

theorem builds_ensureFrom (slashes : Nat) (parts : List String) : Builds (ensureFrom slashes parts) := by
  induction parts with
  | nil => exact builds_ensureOne _
  | cons last above ih =>
    refine (builds_ensureOne _).tryCatch fun e => ?_
    split
    · exact (builds_of_reads (reads_throw _)).bind fun _ => ih.bind fun _ => builds_ensureOne _
    · exact ih.bind fun _ => builds_ensureOne _

theorem builds_ensureDirectory (p : PathName) : Builds (ensureDirectory p) :=
  builds_ensureFrom _ _

theorem builds_ensureParent (target : PathName) : Builds (ensureParent target) := by
  refine (builds_ensureDirectory _).tryCatch fun e => builds_of_reads ?_
  split
  · exact reads_throw _
  · exact reads_throw _

end Filing

end TestMigration
