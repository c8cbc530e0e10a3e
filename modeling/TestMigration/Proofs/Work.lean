import TestMigration.Proofs.Filing
import TestMigration.Run.Pipeline

/-! Pipelines taken apart. A part of a pipeline either ends with an error, or its data and its
facts go on to the next part; what is published on the way changes nothing of the state. -/

namespace TestMigration

variable {σ : Type}

namespace Leaves

variable {α : Type} {r r' : Running σ} {x : Except Failure α}

theorem publish {c : Context} {detail : EventDetail} {x : Except Failure Unit}
    (h : Leaves (Work.publish c detail : Work σ Unit) r x r') : x = .ok () ∧ r'.state = r.state := by
  obtain ⟨rfl, rfl⟩ := h.modify
  exact ⟨rfl, rfl⟩

theorem publish_bind {c : Context} {detail : EventDetail} {f : Unit → Work σ α}
    (h : Leaves (Work.publish c detail >>= f) r x r') :
    ∃ t, t.state = r.state ∧ Leaves (f ()) t x r' := by
  rcases h.bind with ⟨⟨⟩, t, h, h'⟩ | ⟨e, h, -⟩
  · exact ⟨t, h.publish.2, h'⟩
  · cases h.publish.1

theorem onState {m : EStateM Failure σ α} (h : Leaves (Work.onState m) r x r') :
    Leaves m r.state x r'.state := by
  unfold Leaves Work.onState at h
  cases hm : m r.state with
  | ok a s =>
    rw [hm] at h
    cases x with
    | ok b =>
      cases h
      exact hm
    | error e => cases h
  | error e s =>
    rw [hm] at h
    cases x with
    | ok b => cases h
    | error e =>
      cases h
      exact hm

theorem of_state {m : EStateM Failure σ α} {s : σ} (h : Leaves m r.state x s) :
    Leaves (Work.onState m) r x { r with state := s } := by
  unfold Leaves Work.onState
  rw [h]
  cases x <;> rfl

/-- Work on the state publishes nothing. -/
theorem onState_bind {β : Type} {m : EStateM Failure σ β} {f : β → Work σ α}
    (h : Leaves (Work.onState m >>= f) r x r') :
    (∃ b s, Leaves m r.state (.ok b) s ∧ Leaves (f b) { r with state := s } x r') ∨
      ∃ e s, Leaves m r.state (.error e) s ∧ x = .error e ∧ r' = { r with state := s } := by
  cases hm : m r.state with
  | ok b s =>
    have hstate := of_state (x := .ok b) hm
    rcases h.bind with ⟨b', t, hb, hrest⟩ | ⟨e, he, -⟩
    · obtain ⟨hsame, rfl⟩ := hb.unique hstate
      cases hsame
      exact .inl ⟨b, s, hm, hrest⟩
    · cases (he.unique hstate).1
  | error e s =>
    have hstate := of_state (x := .error e) hm
    rcases h.bind with ⟨b', t, hb, -⟩ | ⟨e', he, rfl⟩
    · cases (hb.unique hstate).1
    · obtain ⟨hsame, rfl⟩ := he.unique hstate
      cases hsame
      exact .inr ⟨e, s, hm, rfl, rfl⟩

end Leaves

theorem leaves_of_run {α : Type} {work : Work σ α} {s : σ} {x : Except Failure α} {r : Running σ}
    (h : work.run s = (x, r)) : Leaves work ⟨[], s⟩ x r := by
  unfold Work.run at h
  split at h
  · cases h
    assumption
  · cases h
    assumption

theorem leaves_run {α : Type} (work : Work σ α) (s : σ) :
    Leaves work ⟨[], s⟩ (work.run s).1 (work.run s).2 := leaves_of_run rfl

theorem run_of_leaves {α : Type} {work : Work σ α} {s : σ} {x : Except Failure α} {r : Running σ}
    (h : Leaves work ⟨[], s⟩ x r) : work.run s = (x, r) := by
  unfold Leaves at h
  unfold Work.run
  rw [h]
  cases x <;> rfl

/-! ## Outcomes -/

namespace Outcome

variable {α : Type}

@[simp] theorem isError_failure (e : Failure) (metadata : Entries) :
    (failure e metadata : Outcome α).isError = true := rfl

@[simp] theorem isError_ended (e : Option Failure) (warnings : List String) (metadata : Entries) :
    (ended e warnings metadata : Outcome α).isError = true := rfl

@[simp] theorem isError_success (data : Option α) (metadata : Entries) :
    (success data metadata).isError = false := rfl

@[simp] theorem isError_settled (data : Option α) (warnings : List String) (metadata : Entries) :
    (settled data warnings metadata).isError = false := by
  unfold settled
  split <;> rfl

@[simp] theorem data_settled (data : Option α) (warnings : List String) (metadata : Entries) :
    (settled data warnings metadata).data = data := by
  unfold settled
  split <;> rfl

@[simp] theorem metadata_settled (data : Option α) (warnings : List String) (metadata : Entries) :
    (settled data warnings metadata).metadata = metadata := by
  unfold settled
  split <;> rfl

theorem nextInput_of_data {o : Outcome α} {a : α} (h : o.isError = false) (ha : o.data = some a)
    (input : Option α) : o.nextInput input = some a := by
  simp [nextInput, h, ha]

/-- A text is handed on as the input of what comes next. -/
theorem handOn_of_text {o : Outcome Datum} {text : String} (h : o.isError = false)
    (ho : o.data = some (.text text)) (c : Context) (input : Option Datum) :
    o.handOn c input = (c, some (.text text)) := by
  unfold handOn
  rw [nextInput_of_data h ho, ho]
  rfl

/-- The outcome of a sequence has the data and the facts of its last part. -/
structure EndsAs (last whole : Outcome α) : Prop where
  isError : whole.isError = false
  data : whole.data = last.data
  metadata : whole.metadata = last.metadata

theorem endsAs_ofParts (input : Option α) (done : List (Outcome α)) (last : Outcome α) :
    EndsAs last (ofParts input (done ++ [last])) := by
  cases done with
  | nil => exact ⟨by simp [ofParts, combine], by simp [ofParts, combine], by simp [ofParts, combine]⟩
  | cons first rest =>
    refine ⟨?_, ?_, ?_⟩
    · simp [ofParts, combine]
    · simp [ofParts, combine]
    · simp [ofParts, combine]

theorem EndsAs.trans {a b c : Outcome α} (h : EndsAs a b) (h' : EndsAs b c) : EndsAs a c :=
  ⟨h'.isError, h'.data.trans h.data, h'.metadata.trans h.metadata⟩

end Outcome

/-! ## Parts -/

/-- The work fails, or its outcome is an error. -/
def Refused {α : Type} (x : Except Failure (Outcome α)) : Prop := ∀ o, x = .ok o → o.isError = true

theorem refused_of_error {α : Type} (e : Failure) : Refused (.error e : Except Failure (Outcome α)) := by
  intro o h
  cases h

theorem refused_of_isError {α : Type} {o : Outcome α} (h : o.isError = true) : Refused (.ok o) := by
  intro o' h'
  cases h'
  exact h

variable {c : Context} {input : Option Datum} {r r' : Running σ}
  {x : Except Failure (Outcome Datum)}

/-- A step never fails; the failure of its work becomes an error. -/
theorem Step.run_leaves {s : Step σ} (h : Leaves (s.run c input) r x r') :
    ∃ t y t', t.state = r.state ∧ Leaves (s.execute c input) t y t' ∧ r'.state = t'.state ∧
      ∃ o, x = .ok o ∧ (y = .ok o ∨ (∃ e, y = .error e) ∧ o.isError = true) := by
  obtain ⟨t, ht, hrun⟩ := h.publish_bind
  rcases hrun.bind with ⟨o, u, hwork, hend⟩ | ⟨e, hwork, -⟩
  · obtain ⟨v, hv, hend⟩ := hend.publish_bind
    obtain ⟨rfl, rfl⟩ := hend.pure
    rcases hwork.tryCatch with ⟨a, hdone, ha⟩ | ⟨e, w, hdone, hfail⟩
    · cases ha
      exact ⟨t, _, u, ht, hdone, hv, o, rfl, .inl rfl⟩
    · obtain ⟨w', hw, hfail⟩ := hfail.publish_bind
      obtain ⟨ho, hu⟩ := hfail.pure
      cases ho
      exact ⟨t, _, w, ht, hdone, by rw [hv, hu, hw], _, rfl, .inr ⟨⟨e, rfl⟩, rfl⟩⟩
  · rcases hwork.tryCatch with ⟨a, -, ha⟩ | ⟨e, w, -, hfail⟩
    · cases ha
    · obtain ⟨w', -, hfail⟩ := hfail.publish_bind
      cases hfail.pure.1

namespace Task

variable {t : Task σ}

/-- What a step was run on, and what follows it: an error, or the rest of the task. -/
theorem executeFrom_leaves {s : Step σ} {rest : List (Step σ)} {done : List (Outcome Datum)}
    (h : Leaves (t.executeFrom c (s :: rest) done input) r x r') :
    ∃ u y u', u.state = r.state ∧ Leaves (s.execute c input) u y u' ∧
      ((Refused y ∧ ∃ o, x = .ok o ∧ o.isError = true ∧ r'.state = u'.state) ∨
        ∃ o v, y = .ok o ∧ o.isError = false ∧ v.state = u'.state ∧
          Leaves (t.executeFrom c rest (done ++ [o]) (o.nextInput input)) v x r') := by
  rcases h.bind with ⟨o, v, hrun, hrest⟩ | ⟨e, hrun, -⟩
  · obtain ⟨u, y, u', hu, hstep, hv, o', ho, hy⟩ := Step.run_leaves hrun
    cases ho
    refine ⟨u, y, u', hu, hstep, ?_⟩
    split at hrest
    · rename_i hfailed
      obtain ⟨rfl, rfl⟩ := hrest.pure
      refine .inl ⟨?_, _, rfl, rfl, hv⟩
      rcases hy with rfl | ⟨⟨e, rfl⟩, -⟩
      · exact refused_of_isError hfailed
      · exact refused_of_error e
    · rename_i hok
      rcases hy with rfl | ⟨-, hy⟩
      · exact .inr ⟨o, v, rfl, by simpa using hok, hv, hrest⟩
      · exact absurd hy hok
  · obtain ⟨-, -, -, -, -, -, o, ho, -⟩ := Step.run_leaves hrun
    cases ho

theorem executeFrom_nil {done : List (Outcome Datum)}
    (h : Leaves (t.executeFrom c [] done input) r x r') :
    x = .ok (.ofParts input done) ∧ r' = r := h.pure

end Task

/-- A job with one task is over before the task, ends with an error, or has the data and the facts
of its task. -/
theorem Job.execute_leaves {j : Job σ} {t : Task σ} (ht : j.tasks = [t])
    (h : Leaves (j.execute c input) r x r') :
    ∃ y u, Leaves (j.prepare c input) r y u ∧
      ((r'.state = u.state ∧ ((∃ e, x = .error e) ∨ ∃ o, y = .ok (.error o) ∧ x = .ok o)) ∨
        ∃ input' v z v', y = .ok (.ok input') ∧ v.state = u.state ∧
          Leaves (t.execute c input') v z v' ∧ r'.state = v'.state ∧
          (Refused z ∧ Refused x ∨ ∃ o o', z = .ok o ∧ o.isError = false ∧ x = .ok o' ∧ o.EndsAs o')) := by
  rcases h.bind with ⟨prepared, u, hprepare, hrest⟩ | ⟨e, hprepare, rfl⟩
  · refine ⟨_, u, hprepare, ?_⟩
    cases prepared with
    | error o =>
      obtain ⟨rfl, rfl⟩ := hrest.pure
      exact .inl ⟨rfl, .inr ⟨o, rfl, rfl⟩⟩
    | ok input' =>
      obtain ⟨v, hv, hrest⟩ := hrest.publish_bind
      rw [ht] at hrest
      rcases hrest.bind with ⟨o, v', htask, hend⟩ | ⟨e, htask, rfl⟩
      · split at hend
        · rename_i hfailed
          obtain ⟨w, hw, hend⟩ := hend.publish_bind
          obtain ⟨rfl, rfl⟩ := hend.pure
          exact .inr ⟨input', v, _, v', rfl, hv, htask, hw,
            .inl ⟨refused_of_isError hfailed, refused_of_isError rfl⟩⟩
        · rename_i hok
          obtain ⟨w, hw, hend⟩ := hend.publish_bind
          obtain ⟨rfl, rfl⟩ := hend.pure
          exact .inr ⟨input', v, _, v', rfl, hv, htask, hw,
            .inr ⟨o, _, rfl, by simpa using hok, rfl, Outcome.endsAs_ofParts _ [] o⟩⟩
      · exact .inr ⟨input', v, _, r', rfl, hv, htask, rfl,
          .inl ⟨refused_of_error e, refused_of_error e⟩⟩
  · exact ⟨_, r', hprepare, .inl ⟨rfl, .inl ⟨e, rfl⟩⟩⟩

namespace Pipeline

variable {p : Pipeline σ} {c₀ : Context} {done : List (Outcome Datum)}

/-- What a job came to, and what follows it: an error, or the rest of the pipeline. -/
theorem executeFrom_leaves {j : Job σ} {rest : List (Job σ)}
    (h : Leaves (p.executeFrom c₀ (j :: rest) done c input) r x r') :
    ∃ y u, Leaves (j.execute c input) r y u ∧
      ((Refused y ∧ r'.state = u.state ∧ Refused x) ∨ ∃ o, y = .ok o ∧ o.isError = false ∧
        Leaves (p.executeFrom c₀ rest (done ++ [o]) (o.handOn c input).1 (o.handOn c input).2)
          u x r') := by
  rcases h.bind with ⟨o, u, hjob, hrest⟩ | ⟨e, hjob, rfl⟩
  · refine ⟨_, u, hjob, ?_⟩
    split at hrest
    · rename_i hfailed
      obtain ⟨v, hv, hrest⟩ := hrest.publish_bind
      obtain ⟨rfl, rfl⟩ := hrest.pure
      exact .inl ⟨refused_of_isError hfailed, hv, refused_of_isError rfl⟩
    · rename_i hok
      exact .inr ⟨o, rfl, by simpa using hok, hrest⟩
  · exact ⟨_, r', hjob, .inl ⟨refused_of_error e, rfl, refused_of_error e⟩⟩

theorem executeFrom_nil (h : Leaves (p.executeFrom c₀ [] done c input) r x r') :
    x = .ok (.ofParts input done) ∧ r'.state = r.state := by
  obtain ⟨t, ht, h⟩ := h.publish_bind
  obtain ⟨rfl, rfl⟩ := h.pure
  exact ⟨rfl, ht⟩

end Pipeline

end TestMigration
