import TestMigration.Proofs.Renaming

/-! Lines of a text that is edited. A place that no edit covers is carried along by every commit, and
comes to stand as many lines further down as the edits before it add line feeds, those that they
remove taken off. -/

namespace TestMigration

/-! ## Line feeds -/

/-- The line feeds of a text. -/
def lineFeeds (bytes : ByteArray) : Nat := bytes.data.toList.count 10

theorem lineFeeds_loop (bytes : ByteArray) (n left done : Nat) (h : left + done = bytes.size) :
    ByteArray.foldlM.loop (fun n b => (pure (if b == 10 then n + 1 else n) : Id Nat)) bytes bytes.size
      (Nat.le_refl _) left done n = pure (n + (bytes.data.toList.drop done).count 10) := by
  have hlength : bytes.data.toList.length = bytes.size := rfl
  induction left generalizing done n with
  | zero =>
    rw [List.drop_of_length_le (by omega)]
    simp [ByteArray.foldlM.loop, ← h]
  | succ left ih =>
    have hdone : done < bytes.data.toList.length := by omega
    rw [ByteArray.foldlM.loop, dif_pos (by omega), List.drop_eq_getElem_cons hdone, List.count_cons]
    refine (ih (if bytes.data.toList[done] == 10 then n + 1 else n) (done + 1) (by omega)).trans ?_
    congr 1
    split <;> omega

theorem lineFeedsBefore_eq (source : ByteArray) (offset : Nat) :
    Script.lineFeedsBefore source offset = lineFeeds (source.extract 0 offset) := by
  unfold Script.lineFeedsBefore ByteArray.foldl ByteArray.foldlM
  rw [dif_pos (Nat.le_refl _)]
  dsimp only
  rw [lineFeeds_loop _ 0 _ 0 (by omega), Nat.zero_add, List.drop_zero]
  rfl

theorem lineFeeds_append (a b : ByteArray) : lineFeeds (a ++ b) = lineFeeds a + lineFeeds b := by
  simp [lineFeeds]

theorem lineFeeds_extract (source : ByteArray) (a b : Nat) :
    lineFeeds (source.extract a b) = ((source.data.toList.drop a).take (b - a)).count 10 := by
  rw [lineFeeds, Edit.toList_extract]

theorem lineFeeds_extract_add (source : ByteArray) {a b c : Nat} (hab : a ≤ b) (hbc : b ≤ c) :
    lineFeeds (source.extract a c) = lineFeeds (source.extract a b) + lineFeeds (source.extract b c) := by
  rw [lineFeeds_extract, lineFeeds_extract, lineFeeds_extract, ← List.count_append,
    show c - a = (b - a) + (c - b) by omega, List.take_add, List.drop_drop, Nat.add_sub_cancel' hab]

namespace Edit

/-- By how many lines the edit moves what comes after it. -/
def gain (source : ByteArray) (e : Edit) : Int :=
  lineFeeds e.text - lineFeeds (source.extract e.start e.stop)

/-- By how many lines edits in their order move a place. -/
def gainBefore (source : ByteArray) (place : Nat) : List Edit → Int
  | [] => 0
  | e :: rest => if e.stop ≤ place then e.gain source + gainBefore source place rest else 0

/-- Up to where a place comes to stand, the new text has the line feeds of the old one up to the place,
and those that the edits before it gain. -/
theorem lineFeeds_splice {source : ByteArray} {cursor place : Nat} {es : List Edit}
    (hcursor : cursor ≤ place) (hfirst : ∀ e ∈ es, cursor ≤ e.start)
    (hinside : ∀ e ∈ es, e.start ≤ e.stop ∧ e.stop ≤ source.size)
    (hapart : es.Pairwise fun a b => a.stop ≤ b.start)
    (hclear : ∀ e ∈ es, e.stop ≤ place ∨ place ≤ e.start) :
    (lineFeeds ((splice source cursor es).extract 0 (offsetFrom cursor place es)) : Int) =
      lineFeeds (source.extract cursor place) + gainBefore source place es := by
  have hlength : source.data.toList.length = source.size := rfl
  rw [lineFeeds_extract, Nat.sub_zero, List.drop_zero]
  induction es generalizing cursor with
  | nil =>
    rw [lineFeeds_extract, splice, toList_extract, offsetFrom, gainBefore, List.take_take, Int.add_zero]
    congr 2
    rw [List.take_eq_take_iff, List.length_drop]
    omega
  | cons e rest ih =>
    obtain ⟨hrestFirst, hrest⟩ := List.pairwise_cons.mp hapart
    obtain ⟨hself, hsize⟩ := hinside e List.mem_cons_self
    have hstart := hfirst e List.mem_cons_self
    unfold offsetFrom gainBefore
    split
    -- the edit lies before the place: what it takes away is not counted, its own text is
    · rename_i hbefore
      have htail := ih hbefore hrestFirst (fun x hx => hinside x (List.mem_cons_of_mem e hx)) hrest
        fun x hx => hclear x (List.mem_cons_of_mem e hx)
      have hhead := length_made cursor e.text (hself.trans hsize)
      have hcount : (source.extract cursor e.start ++ e.text).data.toList.count 10 =
          lineFeeds (source.extract cursor e.start) + lineFeeds e.text := lineFeeds_append _ _
      have hkept := lineFeeds_extract_add source hstart hself
      have hrestKept := lineFeeds_extract_add source (Nat.le_trans hstart hself) hbefore
      rw [toList_splice_cons, ← hhead, List.take_length_add_append, List.count_append, hcount, gain]
      push_cast
      omega
    -- the edit lies behind the place, so what comes before the place is copied
    · rename_i hnot
      have hbehind : place ≤ e.start := (hclear e List.mem_cons_self).resolve_left hnot
      have hkept : place - cursor ≤ (source.extract cursor e.start).data.toList.length := by
        rw [length_copied (hself.trans hsize)]
        omega
      rw [toList_splice_copied, List.take_append_of_le_length hkept, lineFeeds_extract, Int.add_zero]
      have hpart := extract_part source (Nat.le_refl cursor) hbehind
      rw [Nat.sub_self, List.drop_zero] at hpart
      rw [hpart]

/-- Edits that can be made together: each lies inside the text, and behind the one before it. -/
structure Fit (source : ByteArray) (es : List Edit) : Prop where
  inside : ∀ e ∈ es, e.start ≤ e.stop ∧ e.stop ≤ source.size
  apart : es.Pairwise fun a b => a.stop ≤ b.start

end Edit

/-- What a batch applies fits the text that its edits lie inside. -/
theorem Batch.fit_settled {b : Batch} {source : ByteArray}
    (hinside : ∀ e ∈ b.edits, e.start ≤ e.stop ∧ e.stop ≤ source.size) :
    Edit.Fit source b.settled.1 where
  inside e he := hinside e (mem_of_applied he)
  apart := (Edit.settle_apart fun e he => (hinside e ((Edit.sorted_perm _).subset he)).1).2

/-! ## Texts that are made of others -/

/-- The later text is made of the earlier one by lists of edits, one list after another. -/
inductive Reworked : ByteArray → List (List Edit) → ByteArray → Prop where
  | refl (source : ByteArray) : Reworked source [] source
  | step {source later : ByteArray} {es : List Edit} {ess : List (List Edit)} :
    Edit.Fit source es → Reworked (Edit.splice source 0 es) ess later →
      Reworked source (es :: ess) later

theorem Reworked.trans {source middle later : ByteArray} {ess ess' : List (List Edit)}
    (h : Reworked source ess middle) (h' : Reworked middle ess' later) :
    Reworked source (ess ++ ess') later := by
  induction h with
  | refl source => exact h'
  | step fit _ ih => exact .step fit (ih h')

/-- None of the edits covers the place. It comes to stand at another one, by so many lines further
down as the edits before it gain. -/
inductive Carries : ByteArray → Nat → List (List Edit) → Nat → Int → Prop where
  | refl (source : ByteArray) (place : Nat) : Carries source place [] place 0
  | step {source : ByteArray} {place place' : Nat} {es : List Edit} {ess : List (List Edit)}
      {gained : Int} : (∀ e ∈ es, e.stop ≤ place ∨ place ≤ e.start) →
    Carries (Edit.splice source 0 es) (Edit.offsetFrom 0 place es) ess place' gained →
      Carries source place (es :: ess) place' (Edit.gainBefore source place es + gained)

/-- A place that is carried along comes to stand by as many lines further down. -/
theorem Reworked.lineFeeds_carried {source later : ByteArray} {ess : List (List Edit)}
    {place place' : Nat} {gained : Int} (h : Reworked source ess later)
    (hc : Carries source place ess place' gained) :
    (Script.lineFeedsBefore later place' : Int) = Script.lineFeedsBefore source place + gained := by
  induction h generalizing place gained with
  | refl source =>
    cases hc
    exact (Int.add_zero _).symm
  | step fit _ ih =>
    cases hc with
    | step clear rest =>
      rw [ih rest, lineFeedsBefore_eq, lineFeedsBefore_eq, ← Int.add_assoc]
      rw [Edit.lineFeeds_splice (Nat.zero_le _) (fun _ _ => Nat.zero_le _) fit.inside fit.apart clear]

/-! ## What programs make of a text -/

/-- Outside blocks a run makes its text of the one it met, by the edits of the batches it closes. -/
theorem Program.reworked {α : Type} (p : Program α) {d : Document} (closed : d.batch = none) :
    ∃ ess, Reworked d.source ess (p.after d).source := by
  refine (run_keeps (R := fun d _ d' => d.batch = none →
    d'.batch = none ∧ ∃ ess, Reworked d.source ess d'.source) ?_ ?_ ?_ ?_ p d closed).2
  · exact fun d h => ⟨h, [], .refl _⟩
  · intro d d' d'' cs cs' h₁ h₂ h
    obtain ⟨h', ess, hr⟩ := h₁ h
    obtain ⟨h'', ess', hr'⟩ := h₂ h'
    exact ⟨h'', ess ++ ess', hr.trans hr'⟩
  · intro start stop text ahead d h
    rw [after_of_error (run_add_of_closed h start stop text ahead)]
    exact ⟨h, [], .refl _⟩
  · intro β body d _ h
    rcases batched_cases body h with ⟨e, -, hr, -⟩ | ⟨a, b, hbody, -, -, ⟨-, hr⟩ |
      ⟨-, root, -, hr⟩ | ⟨-, place, snippet, -, hr⟩⟩
    · rw [after_of_error hr]
      exact ⟨h, [], .refl _⟩
    · rw [after_of_ok hr]
      exact ⟨h, [], .refl _⟩
    · obtain ⟨b', hafter, hinside⟩ := body.inside_of_open (d := d.opened) rfl nofun
      rw [after_of_ok hbody] at hafter
      obtain rfl : b = b' := Option.some.inj (congrArg Document.batch hafter)
      rw [after_of_ok hr]
      exact ⟨h, [b.settled.1], .step (Batch.fit_settled hinside) (.refl _)⟩
    · rw [after_of_error hr]
      exact ⟨h, [], .refl _⟩

theorem Pass.Programmed.reworked {α : Type} {m : Pass α} (hm : Programmed m) {s s' : Session} {a : α}
    (h : m s = .ok a s') (closed : s.document.batch = none) :
    ∃ ess, Reworked s.document.source ess s'.document.source := by
  obtain ⟨p, hrun⟩ := hm.run_ok h
  rw [← Program.after_of_ok hrun]
  exact p.reworked closed

end TestMigration
