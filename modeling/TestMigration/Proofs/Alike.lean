import TestMigration.Proofs.Discovery
import TestMigration.Proofs.Passes
import TestMigration.Proofs.Tidy

/-! A file under two names. What an operation finds at a path depends on the place that the path leads
to; what a search thinks of a file depends on that place and on the dialect that the name chooses. -/

namespace TestMigration

/-- Both operations give one answer, or fail in one way; the disk is left as it is. -/
def Alike {α : Type} (d : Disk) (m m' : Filing α) : Prop :=
  (∃ a, Leaves m d (.ok a) d ∧ Leaves m' d (.ok a) d) ∨
    ∃ e e', Leaves m d (.error e) d ∧ Leaves m' d (.error e') d ∧ e.kind = e'.kind

namespace Alike

variable {α β : Type} {d : Disk}

theorem pure (a : α) : Alike d (Pure.pure a) (Pure.pure a) := .inl ⟨a, rfl, rfl⟩

theorem throw {e e' : Failure} (h : e.kind = e'.kind) :
    Alike d (MonadExcept.throw e : Filing α) (MonadExcept.throw e') := .inr ⟨e, e', rfl, rfl, h⟩

theorem bind {m m' : Filing α} {f f' : α → Filing β} (hm : Alike d m m')
    (hf : ∀ a, Alike d (f a) (f' a)) : Alike d (m >>= f) (m' >>= f') := by
  rcases hm with ⟨a, ha, ha'⟩ | ⟨e, e', he, he', hkind⟩
  · rcases hf a with ⟨b, hb, hb'⟩ | ⟨e, e', he, he', hkind⟩
    · exact .inl ⟨b, ha.of_bind_ok.trans hb, ha'.of_bind_ok.trans hb'⟩
    · exact .inr ⟨e, e', ha.of_bind_ok.trans he, ha'.of_bind_ok.trans he', hkind⟩
  · exact .inr ⟨e, e', he.of_bind_error, he'.of_bind_error, hkind⟩

theorem get_bind {f f' : Disk → Filing β} (hf : Alike d (f d) (f' d)) :
    Alike d (MonadState.get >>= f) (MonadState.get >>= f') := hf

theorem of_same (x : Except Failure α) :
    Alike d (MonadExcept.ofExcept x) (MonadExcept.ofExcept x) := by
  cases x with
  | ok a => exact pure a
  | error e => exact throw rfl

/-- A handler that looks at the kind of a failure only. -/
theorem tryCatch {m m' : Filing α} {handler : Failure → Filing α} (hm : Alike d m m')
    (hh : ∀ e e' : Failure, e.kind = e'.kind → Alike d (handler e) (handler e')) :
    Alike d (MonadExcept.tryCatch m handler) (MonadExcept.tryCatch m' handler) := by
  rcases hm with ⟨a, ha, ha'⟩ | ⟨e, e', he, he', hkind⟩
  · exact .inl ⟨a, ha.tryCatch_ok handler, ha'.tryCatch_ok handler⟩
  · rcases hh e e' hkind with ⟨a, ha, ha'⟩ | ⟨f, f', hf, hf', hkind⟩
    · exact .inl ⟨a, he.tryCatch_error ha, he'.tryCatch_error ha'⟩
    · exact .inr ⟨f, f', he.tryCatch_error hf, he'.tryCatch_error hf', hkind⟩

theorem leaves_ok {m m' : Filing α} (h : Alike d m m') {a : α} (ha : Leaves m d (.ok a) d) :
    Leaves m' d (.ok a) d := by
  rcases h with ⟨b, hb, hb'⟩ | ⟨e, e', he, -, -⟩
  · cases (ha.unique hb).1
    exact hb'
  · cases (ha.unique he).1

theorem answers {m m' : Filing α} (h : Alike d m m') (hm : Filing.Answers m d) :
    Filing.Answers m' d := by
  obtain ⟨a, ha⟩ := hm
  exact ⟨a, h.leaves_ok ha⟩

end Alike

/-! ## Reading -/

namespace Filing

variable {d : Disk} {a b : String}

theorem alike_failWith {α : Type} (operation : String) (f : Fault) :
    Alike d (failWith a operation f : Filing α) (failWith b operation f) := by
  refine Alike.throw ?_
  cases f <;> simp only [Fault.failure, Failure.of]

theorem alike_find (h : d.find a = d.find b) (operation : String) :
    Alike d (find a operation) (find b operation) := by
  refine Alike.get_bind ?_
  rw [h]
  cases d.find b with
  | ok p => exact Alike.pure p
  | error f => exact alike_failWith operation f

theorem alike_size (h : d.find a = d.find b) : Alike d (size a) (size b) := by
  refine (alike_find h "stat").bind fun p => Alike.get_bind ?_
  split
  · exact alike_failWith _ _
  · exact Alike.pure _
  · exact Alike.pure _

theorem alike_readText (h : d.find a = d.find b) : Alike d (readText a) (readText b) := by
  refine Alike.bind ?_ fun bytes => Alike.of_same _
  refine (alike_find h "open").bind fun p => Alike.get_bind ?_
  split
  · exact alike_failWith _ _
  · exact alike_failWith _ _
  · exact Alike.pure _

end Filing

/-! ## Judging -/

theorem plain_usage : Plain Usage.ofDocument := by
  have hcalled : ∀ names : List String, Plain (names.anyM fun name => do
      return (← (← MatchSet.ofTree (.callTo (.exactly name))).first?).isSome) := by
    intro names
    induction names with
    | nil => exact plain_pure _
    | cons name rest ih =>
      refine Plain.bind ?_ fun found => ?_
      · exact MatchSet.plain_ofTree_bind (Pattern.quiet_callTo _) fun set hset =>
          (set.plain_first? hset).bind fun _ => plain_pure _
      · cases found with
        | true => exact plain_pure _
        | false => exact ih
  exact (Import.plain_isImported _).bind fun _ => (hcalled _).bind fun _ => plain_pure _

theorem alike_usage {d : Disk} {a b : String} (h : dialectFor (some a) = dialectFor (some b))
    (source : String) : Alike d (MonadExcept.ofExcept (Usage.ofSource (some a) source))
      (MonadExcept.ofExcept (Usage.ofSource (some b) source)) := by
  unfold Usage.ofSource Document.ofString Document.ofBytes
  rw [h]
  cases Script.parse (dialectFor (some b)) source.toUTF8 with
  | error place => exact Alike.throw rfl
  | ok root =>
    have hsame := plain_usage.nameless
      ⟨some b, Script.parse (dialectFor (some b)), source.toUTF8, root, 0, none⟩ (some a)
    change Alike d (MonadExcept.ofExcept (Usage.ofDocument ⟨some a, _, _, root, 0, none⟩))
      (MonadExcept.ofExcept (Usage.ofDocument ⟨some b, _, _, root, 0, none⟩))
    rw [← hsame]
    exact Alike.of_same _

namespace Discovery

variable {d : Disk} {s : Settings} {a b : String}

/-- A search thinks the same of a file under each of its names. -/
theorem alike_keeps (h : d.find a = d.find b) (hdialect : dialectFor (some a) = dialectFor (some b)) :
    Alike d (keeps s a) (keeps s b) := by
  refine Alike.tryCatch ?_ fun e e' hkind => ?_
  · refine (Filing.alike_size h).bind fun size => (Alike.of_same _).bind fun refuses => ?_
    cases refuses with
    | true => exact Alike.pure _
    | false =>
      exact (Filing.alike_readText h).bind fun source =>
        (alike_usage hdialect source).bind fun _ => Alike.pure _
  · rw [hkind]
    split
    · exact Alike.pure _
    · exact Alike.throw hkind

theorem alike_of_names {q : Route} {name : String} (ha : d.Names a q name) (hb : d.Names b q name) :
    Alike d (keeps s a) (keeps s b) :=
  alike_keeps (ha.found.trans hb.found.symm) (ha.dialect.trans hb.dialect.symm)

end Discovery

end TestMigration
