import TestMigration.Proofs.History
import TestMigration.Proofs.Turn

/-! Which kinds of failure a computation can end with. A step turns every failure of its work into
an outcome, so that a pipeline ends with a failure only where one of its jobs is being prepared. -/

namespace TestMigration

/-- Whatever failure the computation ends with is of one of the kinds. -/
def Confined {σ α : Type} (K : FailureKind → Prop) (m : EStateM Failure σ α) : Prop :=
  ∀ s e s', Leaves m s (.error e) s' → K e.kind

/-- No kind: the computation comes to an answer. -/
def Never : FailureKind → Prop := fun _ => False

section Confined

variable {σ α β : Type} {K : FailureKind → Prop}

theorem confined_stepwise : Stepwise (EStateM Failure σ) fun _ m => Confined K m where
  pure := by
    intro α a s e s' h
    cases h.pure.1
  bind := by
    intro α β m f hm hf s e s' h
    rcases h.bind with ⟨a, t, -, h⟩ | ⟨e', h, he⟩
    · exact hf a _ _ _ h
    · cases he
      exact hm _ _ _ h

theorem confined_pure (a : α) : Confined K (pure a : EStateM Failure σ α) := confined_stepwise.pure a

theorem Confined.bind {m : EStateM Failure σ α} {f : α → EStateM Failure σ β} (hm : Confined K m)
    (hf : ∀ a, Confined K (f a)) : Confined K (m >>= f) := confined_stepwise.bind hm hf

/-- What follows need only be confined for the answers that there are. -/
theorem Confined.bind_ok {m : EStateM Failure σ α} {f : α → EStateM Failure σ β} (hm : Confined K m)
    (hf : ∀ a s s', Leaves m s (.ok a) s' → Confined K (f a)) : Confined K (m >>= f) := by
  intro s e s' h
  rcases h.bind with ⟨a, t, hfirst, hrest⟩ | ⟨e', hfirst, he⟩
  · exact hf a _ _ hfirst _ _ _ hrest
  · cases he
    exact hm _ _ _ hfirst

theorem confined_throw {e : Failure} (he : K e.kind) :
    Confined K (throw e : EStateM Failure σ α) := by
  intro s e' s' h
  cases h.throw.1
  exact he

theorem confined_get : Confined K (get : EStateM Failure σ σ) := by
  intro s e s' h
  cases h.get.1

theorem confined_modify (f : σ → σ) : Confined K (modify f : EStateM Failure σ PUnit) := by
  intro s e s' h
  cases h.modify.1

theorem confined_ofExcept {x : Except Failure α} (hx : ∀ e, x = .error e → K e.kind) :
    Confined K (MonadExcept.ofExcept x : EStateM Failure σ α) := by
  intro s e s' h
  exact hx e h.ofExcept.1.symm

theorem Confined.mono {K' : FailureKind → Prop} {m : EStateM Failure σ α} (hm : Confined K m)
    (h : ∀ k, K k → K' k) : Confined K' m :=
  fun s e s' he => h _ (hm s e s' he)

/-- The handler need only do for the kinds that reach it. -/
theorem Confined.tryCatch {K' : FailureKind → Prop} {m : EStateM Failure σ α}
    {handler : Failure → EStateM Failure σ α} (hm : Confined K' m)
    (hh : ∀ e, K' e.kind → Confined K (handler e)) : Confined K (MonadExcept.tryCatch m handler) := by
  intro s e s' h
  rcases h.tryCatch with ⟨a, -, ha⟩ | ⟨e', t, hfail, h⟩
  · cases ha
  · exact hh e' (hm _ _ _ hfail) _ _ _ h

/-- Work whose failures are told from others by their kind, the others going on. -/
theorem Confined.tryCatch_if {K' : FailureKind → Prop} {m : EStateM Failure σ α} (hm : Confined K' m)
    {reported : FailureKind → Bool} {answer : Failure → α}
    (h : ∀ k, K' k → reported k = false → K k) :
    Confined K (MonadExcept.tryCatch m fun e =>
      if reported e.kind then pure (answer e) else throw e) := by
  refine hm.tryCatch fun e he => ?_
  cases hreported : reported e.kind with
  | true =>
    rw [if_pos rfl]
    exact confined_pure _
  | false =>
    rw [if_neg (by simp)]
    exact confined_throw (h _ he hreported)

theorem confined_of_answers {m : EStateM Failure σ α} (h : ∀ s, ∃ a s', Leaves m s (.ok a) s') :
    Confined K m := by
  intro s e s' he
  obtain ⟨a, t, ha⟩ := h s
  cases (ha.unique he).1

end Confined

/-! ## Pipelines -/

section Pipelines

variable {σ α : Type} {K : FailureKind → Prop} {c : Context}

theorem confined_publish (detail : EventDetail) : Confined K (Work.publish c detail : Work σ Unit) :=
  confined_modify _

theorem Confined.onState {m : EStateM Failure σ α} (hm : Confined K m) :
    Confined K (Work.onState m) :=
  fun _ e _ h => hm _ e _ h.onState

theorem Task.confined (t : Task σ) (input : Option Datum) : Confined K (t.execute c input) :=
  confined_of_answers fun r => t.ends c input r

theorem Job.confined_executeFrom (j : Job σ) (c₀ : Context) (tasks : List (Task σ))
    (done : List (Outcome Datum)) (c : Context) (input : Option Datum) :
    Confined K (j.executeFrom c₀ tasks done c input) := by
  induction tasks generalizing done c input with
  | nil => exact (confined_publish _).bind fun _ => confined_pure _
  | cons t rest ih =>
    refine (t.confined input).bind fun outcome => ?_
    split
    · exact (confined_publish _).bind fun _ => confined_pure _
    · exact ih _ _ _

/-- Only its preparation can end a job with a failure. -/
theorem Job.confined {j : Job σ} {input : Option Datum} (hprepare : Confined K (j.prepare c input)) :
    Confined K (j.execute c input) := by
  refine hprepare.bind fun prepared => ?_
  cases prepared with
  | error outcome => exact confined_pure _
  | ok input => exact (confined_publish _).bind fun _ => j.confined_executeFrom c j.tasks [] c input

end Pipelines

namespace Phase

variable {K : FailureKind → Prop} {c : Context}

theorem confined_collector (source : String) :
    Confined K (collector.execute c (some (.text source))) :=
  Job.confined (confined_pure (σ := Running Disk) _)

end Phase

namespace Migration

variable {K : FailureKind → Prop} {c : Context}

/-- In memory nothing is prepared. -/
theorem confined_sourcePipeline (source : String) :
    Confined K (sourcePipeline.execute c (some (.text source))) := by
  refine (confined_publish _).bind fun _ => (Phase.confined_collector source).bind fun outcome => ?_
  split
  · exact (confined_publish _).bind fun _ => confined_pure _
  · exact (confined_publish _).bind fun _ => confined_pure _

/-- For a file the source is secured after the conversion. -/
theorem confined_filePipeline {source : String}
    (hsecure : ∀ input, Confined K (Phase.secureSource "output" c input)) :
    Confined K (filePipeline.execute c (some (.text source))) := by
  intro r e r' h
  obtain ⟨t, -, h⟩ := h.publish_bind
  rcases h.bind with ⟨o, u, hjob, hrest⟩ | ⟨e', hjob, he⟩
  · split at hrest
    · obtain ⟨v, -, hrest⟩ := hrest.publish_bind
      cases hrest.pure.1
    · rename_i hok
      have hok : o.isError = false := by simpa using hok
      obtain ⟨-, hrefused | ⟨o', conversion, ho', -, -, hdata⟩⟩ := Phase.collector_leaves hjob
      · rw [hrefused o rfl] at hok
        cases hok
      cases ho'
      rw [Outcome.handOn_of_text hok hdata] at hrest
      have houtput : Confined K (Phase.output.execute c (some (.text conversion.code))) :=
        Job.confined (hsecure _)
      refine (houtput.bind fun outcome => ?_) _ _ _ hrest
      split
      · exact (confined_publish _).bind fun _ => confined_pure _
      · exact (confined_publish _).bind fun _ => confined_pure _
  · cases he
    exact Phase.confined_collector source _ _ _ hjob

end Migration

end TestMigration
