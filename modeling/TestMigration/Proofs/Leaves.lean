import TestMigration.Proofs.Look

/-! Computations with a state, which a failure does not take back. A run is taken apart into the
runs of its parts. -/

namespace TestMigration

/-- Run from `s`, the computation answers `x` and leaves `s'`. -/
def Leaves {ε σ α : Type} (m : EStateM ε σ α) (s : σ) (x : Except ε α) (s' : σ) : Prop :=
  m s = match x with
    | .ok a => .ok a s'
    | .error e => .error e s'

namespace Leaves

variable {ε σ α β : Type} {s s' : σ}

theorem unique {m : EStateM ε σ α} {x y : Except ε α} {t : σ} (h : Leaves m s x s')
    (h' : Leaves m s y t) : x = y ∧ s' = t := by
  unfold Leaves at h h'
  rw [h] at h'
  cases x <;> cases y <;> cases h' <;> exact ⟨rfl, rfl⟩

theorem pure {a : α} {x : Except ε α} (h : Leaves (Pure.pure a : EStateM ε σ α) s x s') :
    x = .ok a ∧ s' = s := by
  cases x with
  | ok b =>
    cases h
    exact ⟨rfl, rfl⟩
  | error e => cases h

theorem throw {e : ε} {x : Except ε α} (h : Leaves (MonadExcept.throw e : EStateM ε σ α) s x s') :
    x = .error e ∧ s' = s := by
  cases x with
  | ok b => cases h
  | error e =>
    cases h
    exact ⟨rfl, rfl⟩

theorem get {x : Except ε σ} (h : Leaves (MonadState.get : EStateM ε σ σ) s x s') :
    x = .ok s ∧ s' = s := by
  cases x with
  | ok b =>
    cases h
    exact ⟨rfl, rfl⟩
  | error e => cases h

theorem of_get (s : σ) : Leaves (MonadState.get : EStateM ε σ σ) s (.ok s) s := rfl

theorem modify {f : σ → σ} {x : Except ε PUnit}
    (h : Leaves (modify f : EStateM ε σ PUnit) s x s') : x = .ok ⟨⟩ ∧ s' = f s := by
  cases x with
  | ok b =>
    cases h
    exact ⟨rfl, rfl⟩
  | error e => cases h

theorem ofExcept {y x : Except ε α}
    (h : Leaves (MonadExcept.ofExcept y : EStateM ε σ α) s x s') : x = y ∧ s' = s := by
  cases y with
  | ok a => exact h.pure
  | error e => exact h.throw

theorem bind {m : EStateM ε σ α} {f : α → EStateM ε σ β} {x : Except ε β}
    (h : Leaves (m >>= f) s x s') :
    (∃ a t, Leaves m s (.ok a) t ∧ Leaves (f a) t x s') ∨
      ∃ e, Leaves m s (.error e) s' ∧ x = .error e := by
  unfold Leaves at h
  change EStateM.bind m f s = _ at h
  unfold EStateM.bind at h
  cases hm : m s with
  | ok a t =>
    rw [hm] at h
    exact .inl ⟨a, t, hm, h⟩
  | error e t =>
    rw [hm] at h
    cases x with
    | ok b => cases h
    | error e' =>
      cases h
      exact .inr ⟨e, hm, rfl⟩

/-- A run that succeeds has succeeded at its first part. -/
theorem bind_ok {m : EStateM ε σ α} {f : α → EStateM ε σ β} {b : β}
    (h : Leaves (m >>= f) s (.ok b) s') :
    ∃ a t, Leaves m s (.ok a) t ∧ Leaves (f a) t (.ok b) s' := by
  rcases h.bind with hfirst | ⟨e, -, he⟩
  · exact hfirst
  · cases he

theorem of_bind_ok {m : EStateM ε σ α} {f : α → EStateM ε σ β} {a : α} {t : σ}
    (h : Leaves m s (.ok a) t) : (m >>= f) s = f a t := by
  change EStateM.bind m f s = _
  unfold EStateM.bind
  rw [show m s = .ok a t from h]

theorem of_bind_error {m : EStateM ε σ α} {f : α → EStateM ε σ β} {e : ε} {t : σ}
    (h : Leaves m s (.error e) t) : (m >>= f) s = .error e t := by
  change EStateM.bind m f s = _
  unfold EStateM.bind
  rw [show m s = .error e t from h]

theorem get_bind {f : σ → EStateM ε σ β} {x : Except ε β}
    (h : Leaves (MonadState.get >>= f) s x s') : Leaves (f s) s x s' := h

/-- What was changed before a failure stays. -/
theorem tryCatch {m : EStateM ε σ α} {handler : ε → EStateM ε σ α} {x : Except ε α}
    (h : Leaves (MonadExcept.tryCatch m handler) s x s') :
    (∃ a, Leaves m s (.ok a) s' ∧ x = .ok a) ∨
      ∃ e t, Leaves m s (.error e) t ∧ Leaves (handler e) t x s' := by
  unfold Leaves at h
  change EStateM.tryCatch m handler s = _ at h
  unfold EStateM.tryCatch at h
  cases hm : m s with
  | ok a t =>
    rw [hm] at h
    cases x with
    | ok b =>
      cases h
      exact .inl ⟨a, hm, rfl⟩
    | error e => cases h
  | error e t =>
    rw [hm] at h
    exact .inr ⟨e, t, hm, h⟩

theorem tryCatch_ok {m : EStateM ε σ α} {a : α} (h : Leaves m s (.ok a) s')
    (handler : ε → EStateM ε σ α) : Leaves (MonadExcept.tryCatch m handler) s (.ok a) s' := by
  change EStateM.tryCatch m handler s = _
  unfold EStateM.tryCatch
  rw [show m s = _ from h]

theorem tryCatch_error {m : EStateM ε σ α} {handler : ε → EStateM ε σ α} {e : ε} {x : Except ε α}
    {t : σ} (h : Leaves m s (.error e) t) (h' : Leaves (handler e) t x s') :
    Leaves (MonadExcept.tryCatch m handler) s x s' := by
  change EStateM.tryCatch m handler s = _
  unfold EStateM.tryCatch
  rw [show m s = _ from h]
  exact h'

/-- An attempt has come to what it was for, or its failure was handled. -/
theorem attempt {m : EStateM ε σ α} {f : α → β} {handler : ε → EStateM ε σ β} {x : Except ε β}
    (h : Leaves (MonadExcept.tryCatch (m >>= fun a => Pure.pure (f a)) handler) s x s') :
    (∃ a, Leaves m s (.ok a) s' ∧ x = .ok (f a)) ∨
      ∃ e t, Leaves m s (.error e) t ∧ Leaves (handler e) t x s' := by
  rcases h.tryCatch with ⟨b, hdone, rfl⟩ | ⟨e, t, hfail, hhandler⟩
  · obtain ⟨a, t, ha, hb⟩ := hdone.bind_ok
    obtain ⟨hsame, rfl⟩ := hb.pure
    exact .inl ⟨a, ha, hsame⟩
  · rcases hfail.bind with ⟨a, u, -, hfail⟩ | ⟨e', hfail, he⟩
    · cases hfail.pure.1
    · cases he
      exact .inr ⟨e, t, hfail, hhandler⟩

end Leaves

/-- A part of an answer that has been computed shows that there is an answer. -/
theorem exists_of_toOption_map {ε α β : Type} {x : Except ε α} {f : α → β} {b : β}
    (h : x.toOption.map f = some b) : ∃ a, x = .ok a ∧ f a = b := by
  cases x with
  | error e => cases h
  | ok a => exact ⟨a, rfl, Option.some.inj h⟩

/-- Are the bytes those of the parts, one behind another? They are compared from the front, each once. -/
def spelledBy (parts : List String) (bytes : ByteArray) : Bool :=
  bytes.data.toList == parts.flatMap (·.toUTF8.data.toList)

theorem eq_of_spelledBy {text : String} {rest : List String} {bytes : ByteArray}
    (h : spelledBy (text :: rest) bytes = true) : bytes = (rest.foldl (· ++ ·) text).toUTF8 := by
  refine ByteArray.ext (Array.ext' ((beq_iff_eq.mp h).trans ?_))
  clear h
  induction rest generalizing text with
  | nil => rw [List.flatMap_singleton, List.foldl_nil]
  | cons next rest ih =>
    rw [List.foldl_cons, ← ih]
    simp only [List.flatMap_cons, String.toUTF8_eq_toByteArray, String.toByteArray_append, ByteArray.data_append,
      Array.toList_append, List.append_assoc]

/-- Whatever the answer, the state before and the state after are related. -/
def Relates {σ : Type} (R : σ → σ → Prop) {α : Type} (m : EStateM Failure σ α) : Prop :=
  ∀ s x s', Leaves m s x s' → R s s'

section Relates

variable {σ α β : Type} {R : σ → σ → Prop}

theorem relates_stepwise (hrefl : ∀ s, R s s) (htrans : ∀ {s t u}, R s t → R t u → R s u) :
    Stepwise (EStateM Failure σ) fun _ m => Relates R m where
  pure := by
    intro α a s x s' h
    obtain ⟨-, rfl⟩ := h.pure
    exact hrefl _
  bind := by
    intro α β m f hm hf s x s' h
    rcases h.bind with ⟨a, t, h, h'⟩ | ⟨e, h, -⟩
    · exact htrans (hm _ _ _ h) (hf a _ _ _ h')
    · exact hm _ _ _ h

theorem Relates.tryCatch (htrans : ∀ {s t u}, R s t → R t u → R s u) {m : EStateM Failure σ α}
    {handler : Failure → EStateM Failure σ α} (hm : Relates R m) (hh : ∀ e, Relates R (handler e)) :
    Relates R (MonadExcept.tryCatch m handler) := by
  intro s x s' h
  rcases h.tryCatch with ⟨a, h, -⟩ | ⟨e, t, h, h'⟩
  · exact hm _ _ _ h
  · exact htrans (hm _ _ _ h) (hh e _ _ _ h')

end Relates

end TestMigration
