import TestMigration.Proofs.ImportNames
import TestMigration.Proofs.Location

/-! The import that converted events need. Calls of `userEvent` are written whether or not the script has
this name, and the import of it is put on top just where no import is from its module at all. So the name
is bound in the end unless the module is imported only in other ways. -/

namespace TestMigration

open Script (Node Place)

/-! ## A line on top -/

namespace Document

variable {d d' : Document} {line : String}

/-- The text with lines above everything but a hash-bang line. -/
def topped (d : Document) (lines : List String) : ByteArray :=
  d.source.extract 0 d.top ++ lineText lines ++ d.source.extract d.top d.source.size

/-- Of the lines that are put on top the same imports are read as without the text below them, and of this
text the same ones as without them. -/
def ReadsOnTop (d : Document) (lines : List String) : Prop :=
  ∀ root ∈ (d.read (d.topped lines)).toOption,
    (d.reread (d.topped lines) root).entries = entriesIn d.read lines ++ d.entries

instance (d : Document) (lines : List String) : Decidable (d.ReadsOnTop lines) :=
  inferInstanceAs (Decidable (∀ _ ∈ Except.toOption _, _))

theorem Worded.top_le (hd : d.Worded) : d.top ≤ d.source.size := by
  unfold top
  cases hline : d.root.children.find? (·.kind == .hashBangLine) with
  | none => exact Nat.zero_le _
  | some line =>
    obtain ⟨source, hsource⟩ := hd.text
    have hwithin : ((Place.root d.root).child line).Within d.root :=
      Place.Within.root.child (List.mem_of_find?_eq_some hline)
    have hstop : line.stop ≤ d.source.size := hsource ▸ (hd.cuts hsource hwithin).2.le_size
    exact (endsLine_lineStop hstop).inside

theorem insertAtTop_ok (closed : d.batch = none) (hd : d.Worded) (hline : line ≠ "") {u : Unit}
    (h : insertAtTop (Text.ofString line) d = .ok u d') :
    ∃ root, d.read (d.topped [line]) = .ok root ∧ d' = d.reread (d.topped [line]) root := by
  have hsome : (Text.ofString line).isEmpty = false := by
    rw [List.isEmpty_eq_false_iff, Text.ofString, ne_eq, List.map_eq_nil_iff, String.toList_eq_nil_iff]
    exact hline
  unfold insertAtTop at h
  rw [hsome, if_neg Bool.false_ne_true, bind_apply, get_apply] at h
  obtain ⟨b, hadd, hend⟩ := recordEdit_ok closed h
  have hheaded := @Batch.add_headed d.generation d.top d.source.size [] [] line (List.forall_mem_nil _)
    hd.top_le List.not_mem_nil
  obtain rfl : b = .headed d.generation [] d.top [line] := Except.ok.inj (hadd.symm.trans hheaded)
  rcases hend with ⟨hnone, -⟩ | ⟨-, root, hread, hafter⟩
  · cases hnone
  · rw [Batch.outcome_topped hd.top_le] at hread hafter
    exact ⟨root, hread, hafter⟩

/-! ## Rounds -/

/-- What every round keeps, all rounds keep. -/
theorem untilStable_keeps {I : Document → Prop} {round : Editing Unit} {limit : Int}
    (step : ∀ d u spent d', I d → batched round d = .ok (u, spent) d' → I d') {n : Nat} (hd : I d)
    (h : untilStable round limit d = .ok n d') : I d' := by
  unfold untilStable at h
  -- the induction is on the rounds that are left; how many edits were applied before is no matter
  generalize limit.toNat = rounds at h
  generalize 0 = total at h
  induction rounds generalizing d total with
  | zero => cases h
  | succ rounds ih =>
    obtain ⟨⟨u, spent⟩, d₁, hbatched, h⟩ := Leaves.bind_ok h
    have hround := step d u spent d₁ hd hbatched
    dsimp only at h
    split at h
    · obtain ⟨-, rfl⟩ := h.pure
      exact hround
    · exact ih hround _ h

/-- Rounds that replace nodes by texts leave a script to be a script. -/
theorem worded_of_rewrite {p : Pattern} (hp : p.Quiet) {build : Handle → Looking (Option Text)}
    (hb : ∀ h, Plain (build h)) {limit : Int} (closed : d.batch = none) (hd : d.Worded) {n : Nat}
    (h : untilStable (do let _ ← (← (MatchSet.ofTree p : Looking _)).replaceWith build) limit d = .ok n d') :
    d'.batch = none ∧ d'.Worded := by
  have hround := MatchSet.made_ofTree_bind hp fun set hs =>
    (set.made_replaceWith hs hb).bind fun _ => made_pure ()
  refine untilStable_keeps (I := fun d => d.batch = none ∧ d.Worded) ?_ ⟨closed, hd⟩ h
  rintro d u spent d' ⟨closed, hd⟩ hbatched
  obtain ⟨b, -, -, hclosed, -⟩ := batched_records hround closed hbatched
  refine ⟨hclosed, batched_worded hround closed hd hbatched fun b hrecords => ?_⟩
  rw [← bind_assoc] at hrecords
  obtain ⟨m, b₁, hrecords, hpure⟩ := hrecords.bind
    (MatchSet.made_ofTree_bind hp fun set hs => set.made_replaceWith hs hb)
  obtain ⟨-, rfl⟩ := hpure.pure
  obtain ⟨found, hfound, hreplaces⟩ := records_replaceAll hp hb hrecords rfl
  intro e he
  obtain ⟨call, hcall, t, s, -, -, hputs⟩ := hreplaces.only e he
  have hcurrent : call.Current d := by
    refine MatchSet.members_current (.within [d.handle (.root d.root)] p) (fun r hr => ?_) found hfound call hcall
    cases List.mem_singleton.mp hr
    exact fun _ => Place.Within.root
  exact hd.neat_of_puts hcurrent.within hputs

end Document

namespace Simulation

variable {path file : Option String} {source : String} {d : Document} {findings : List Diagnostic} {n : Nat}
  {s s' : Session}

/-! ## The pass -/

/-- Either an import of what converted calls use is not needed or is there already, or the line is put on top. -/
theorem importUserEvent_ok {u : Unit} (closed : s.document.batch = none) (hd : s.document.Worded)
    (h : importUserEvent n s = .ok u s') :
    (n = 0 ∨ s.document.Imports Import.userEventModule) ∧ s'.document = s.document ∨
      ¬ s.document.Imports Import.userEventModule ∧
        ∃ root, s.document.read (s.document.topped [Import.userEventLine]) = .ok root ∧
          s'.document = s.document.reread (s.document.topped [Import.userEventLine]) root := by
  obtain ⟨imported, t, himported, hinsert⟩ := Leaves.bind_ok h
  obtain ⟨himported, rfl⟩ := Pass.look_ok himported
  have hanswer := Import.isImported_ok hd.legible himported
  split at hinsert
  · rename_i hneeded
    obtain ⟨d, hrun, rfl⟩ := Pass.lift_ok hinsert
    refine .inr ⟨fun himports => ?_, Document.insertAtTop_ok closed hd (by decide) hrun⟩
    rw [hanswer.mpr himports, Bool.not_true, Bool.and_false] at hneeded
    cases hneeded
  · rename_i hidle
    obtain ⟨-, rfl⟩ := hinsert.pure
    refine .inl ⟨?_, rfl⟩
    by_cases hn : n = 0
    · exact .inl hn
    · refine .inr (hanswer.mp ?_)
      rw [Bool.not_eq_true, bne_iff_ne.mpr hn, Bool.true_and, Bool.not_eq_false'] at hidle
      exact hidle

/-- The events are converted before it is known whether the import is there. -/
theorem convert_ok (closed : s.document.batch = none) (hd : s.document.Worded) (h : convert s = .ok n s') :
    ∃ t, Pass.rewrite namedCalls userCall? s = .ok n t ∧ t.document.Worded ∧
      ((n = 0 ∨ t.document.Imports Import.userEventModule) ∧ s'.document = t.document ∨
        ¬ t.document.Imports Import.userEventModule ∧
          ∃ root, t.document.read (t.document.topped [Import.userEventLine]) = .ok root ∧
            s'.document = t.document.reread (t.document.topped [Import.userEventLine]) root) := by
  obtain ⟨m, t, hrewrite, h₁⟩ := Leaves.bind_ok h
  obtain ⟨calls, t₁, hcalls, h₂⟩ := h₁.bind_ok
  obtain ⟨-, ht₁⟩ := Pass.look_ok hcalls
  rw [ht₁] at h₂
  obtain ⟨u, t₂, hloop, h₃⟩ := h₂.bind_ok
  obtain ⟨u', t₃, himport, h₄⟩ := h₃.bind_ok
  obtain ⟨hm, rfl⟩ := h₄.pure
  cases hm
  have hpoints : Pass.Points .unmappedSimulateEvent calls t t₂ :=
    Pass.points_of_each (fun h => Pass.points_of_report h) hloop
  obtain ⟨d₁, hrounds, ht⟩ := Pass.lift_ok hrewrite
  obtain ⟨hclosed, hworded⟩ : t.document.batch = none ∧ t.document.Worded := by
    rw [ht]
    exact Document.worded_of_rewrite quiet_namedCalls plain_userCall? closed hd hrounds
  refine ⟨t, hrewrite, hworded, ?_⟩
  rw [← hpoints.document] at hclosed hworded ⊢
  exact importUserEvent_ok hclosed hworded himport

/-- What is read of the line alone, in either kind of file. -/
theorem entriesIn_userEventLine (dialect : Script.Dialect) :
    Document.entriesIn (Script.parse dialect) [Import.userEventLine] =
      [⟨some (Text.ofString Import.userEventModule), ["userEvent"]⟩] := by
  cases dialect <;> decide +kernel

/-- After calls have been converted the name is bound by an import from its module just where no import has
been from the module before, or one of them has bound the name. -/
theorem convert_binds (hd : Document.ofString path source = .ok d) (hrun : convert ⟨d, file, findings⟩ = .ok n s')
    (hpositive : 0 < n) (hread : ∀ t, Pass.rewrite namedCalls userCall? ⟨d, file, findings⟩ = .ok n t →
      t.document.entries = d.entries ∧ t.document.ReadsOnTop [Import.userEventLine]) :
    s'.document.Binds Import.userEventModule "userEvent" ↔
      ¬ d.Imports Import.userEventModule ∨ d.Binds Import.userEventModule "userEvent" := by
  obtain ⟨t, hrewrite, hworded, hend⟩ :=
    convert_ok (Document.sound_of_ofBytes hd).2 (Document.worded_ofString hd) hrun
  obtain ⟨hentries, htop⟩ := hread t hrewrite
  have hsame : t.document.Imports Import.userEventModule ↔ d.Imports Import.userEventModule := by
    unfold Document.Imports
    rw [hentries]
  rcases hend with ⟨himports, hafter⟩ | ⟨hnone, root, hroot, hafter⟩
  · have himports : d.Imports Import.userEventModule := hsame.mp (himports.resolve_left hpositive.ne')
    unfold Document.Binds
    rw [hafter, hentries]
    exact (or_iff_right fun h => h himports).symm
  · refine iff_of_true ?_ (.inl fun himports => hnone (hsame.mpr himports))
    obtain ⟨dialect, hdialect⟩ := hworded.script
    have hbelow := htop root (by rw [hroot]; rfl)
    rw [hdialect, entriesIn_userEventLine, ← hafter] at hbelow
    unfold Document.Binds
    rw [hbelow]
    exact ⟨_, List.mem_cons_self, rfl, List.mem_singleton_self _⟩

/-- A call in a script that imports nothing. -/
def clickScript : String := "x.simulate('click')"

theorem convert_binds_unimported : ∃ (d : Document) (s' : Session), Document.ofString none clickScript = .ok d ∧
    convert ⟨d, none, []⟩ = .ok 1 s' ∧
      (∀ t, Pass.rewrite namedCalls userCall? ⟨d, none, []⟩ = .ok 1 t →
        t.document.entries = d.entries ∧ t.document.ReadsOnTop [Import.userEventLine]) ∧
      ¬ d.Imports Import.userEventModule ∧ s'.document.Binds Import.userEventModule "userEvent" := by
  have hconvert : convert.onScript? clickScript
      (fun d n _ => (n, decide (d.Imports Import.userEventModule))) = some (1, false) := by decide +kernel
  have hrewrite : (Pass.rewrite namedCalls userCall?).onScript? clickScript (fun d _ t =>
      decide (t.document.entries = d.entries ∧ t.document.ReadsOnTop [Import.userEventLine])) = some true := by
    decide +kernel
  obtain ⟨d, n, s', hd, hrun, hobserved⟩ := Pass.exists_of_onScript? hconvert
  obtain ⟨rfl, hnone⟩ := Prod.mk.inj hobserved
  obtain ⟨d', m, t, hd', hrounds, hkept⟩ := Pass.exists_of_onScript? hrewrite
  cases hd.symm.trans hd'
  have hread : ∀ t, Pass.rewrite namedCalls userCall? ⟨d, none, []⟩ = .ok 1 t →
      t.document.entries = d.entries ∧ t.document.ReadsOnTop [Import.userEventLine] := by
    intro t' ht'
    cases hrounds.symm.trans ht'
    exact of_decide_eq_true hkept
  have hnone := of_decide_eq_false hnone
  exact ⟨d, s', hd, hrun, hread, hnone, (convert_binds hd hrun Nat.one_pos hread).mpr (.inl hnone)⟩

/-- The module is imported under another name. -/
def renamedScript : String := "import user from '@testing-library/user-event';\nx.simulate('click');\n"

/-- The call is converted, and the name that it uses is bound by nothing. -/
theorem convert_leaves_unbound : ∃ (d : Document) (s' : Session), Document.ofString none renamedScript = .ok d ∧
    convert ⟨d, none, []⟩ = .ok 1 s' ∧
      s'.document.source = "import user from '@testing-library/user-event';\nuserEvent.click(x);\n".toUTF8 ∧
      ¬ s'.document.Binds Import.userEventModule "userEvent" := by
  have hconvert : convert.onScript? renamedScript (fun _ n s' => (n,
      spelledBy ["import user from '@testing-library/user-event';\nuserEvent.click(x);\n"] s'.document.source,
      decide (s'.document.Binds Import.userEventModule "userEvent"))) = some (1, true, false) := by
    decide +kernel
  obtain ⟨d, n, s', hd, hrun, hobserved⟩ := Pass.exists_of_onScript? hconvert
  simp only [Prod.mk.injEq, decide_eq_false_iff_not] at hobserved
  obtain ⟨rfl, hspelled, hunbound⟩ := hobserved
  exact ⟨d, s', hd, hrun, eq_of_spelledBy hspelled, hunbound⟩

end Simulation

end TestMigration
