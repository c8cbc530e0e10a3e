import TestMigration.Proofs.LegacyImports
import TestMigration.Proofs.Parts

/-! Lines that a block puts at the top, whatever else it does. In the text that it makes they stand right below a
hash-bang line, the latest first, ahead of all that the other edits of the block leave there. -/

namespace TestMigration

/-! ## Blocks of steps -/

/-- What a block does: it puts a line at the top, or records some other edit. -/
inductive BatchStep where
  | top (line : String)
  | other (request : Request)

namespace BatchStep

def run : BatchStep → Editing Unit
  | top line => Document.insertAtTop (Text.ofString line)
  | other r => Document.recordEdit r.start r.stop r.text r.ahead

/-- What the step asks the batch of a document for. -/
def request (d : Document) : BatchStep → Request
  | top line => ⟨d.top, d.top, Text.ofString line ++ [.char '\n'], true⟩
  | other r => r

def line? : BatchStep → Option String
  | top line => some line
  | other _ => none

end BatchStep

/-- What the steps ask the batch for, in their order. -/
def Document.requests (d : Document) (steps : List BatchStep) : List Request := steps.map (·.request d)

/-- An accepted request is recorded, or dropped as a repeat. -/
theorem Batch.add_of_accepted {b : Batch} {length : Nat} {r : Request} (hopen : b.committed = false)
    (h : (r.edit? length).isSome = true) :
    b.add b.generation length r.start r.stop r.text r.ahead = .ok (b.request b.generation length r) := by
  obtain ⟨e, he⟩ := Option.isSome_iff_exists.mp h
  obtain ⟨⟨hstart, hle, hstop⟩, s, hs, -⟩ := Request.edit?_eq_some he
  have hrange : (decide (r.start < 0) || decide (r.stop < r.start) || decide (r.stop > length)) = false := by
    simp only [Bool.or_eq_false_iff, decide_eq_false_iff_not]
    omega
  unfold request add
  simp only [hopen, hrange, hs, bne_self_eq_false, Bool.false_eq_true, if_false]
  split
  · rfl
  · rfl

theorem Batch.request_open {b : Batch} {length : Nat} {r : Request} (hopen : b.committed = false) :
    (b.request b.generation length r).committed = false ∧
      (b.request b.generation length r).generation = b.generation := by
  rw [Batch.request_eq b length r hopen]
  split
  · exact ⟨hopen, rfl⟩
  · split
    · exact ⟨hopen, rfl⟩
    · exact ⟨hopen, rfl⟩

section Blocks

variable {d : Document} {b b' : Batch} {steps : List BatchStep} {step : BatchStep}

theorem records_step (hopen : b.committed = false) (hcurrent : b.generation = d.generation)
    (hfilled : step ≠ .top "") (haccepted : ((step.request d).edit? d.source.size).isSome = true) :
    Records step.run d b () (b.request d.generation d.source.size (step.request d)) := by
  have hadd := Batch.add_of_accepted hopen haccepted
  rw [hcurrent] at hadd
  cases step with
  | other r => exact records_recordEdit_of_add hadd
  | top line => exact records_insertAtTop_of_add (fun h => hfilled (congrArg BatchStep.top h)) hadd

/-- The batch of a block is asked for the edits of its steps one after the other. -/
theorem records_steps (hopen : b.committed = false) (hcurrent : b.generation = d.generation)
    (hfilled : .top "" ∉ steps)
    (haccepted : ∀ step ∈ steps, ((step.request d).edit? d.source.size).isSome = true) :
    Records (steps.forM BatchStep.run) d b ⟨⟩
      (b.requestAll d.generation d.source.size (d.requests steps)) := by
  induction steps generalizing b with
  | nil => exact records_pure _
  | cons step steps ih =>
    obtain ⟨hstep, hsteps⟩ := List.forall_mem_cons.mp haccepted
    have hfirst := records_step hopen hcurrent (fun h => hfilled (h ▸ List.mem_cons_self)) hstep
    obtain ⟨hopen', hcurrent'⟩ := @Batch.request_open _ d.source.size (step.request d) hopen
    rw [hcurrent] at hopen' hcurrent'
    exact hfirst.andThen (ih hopen' hcurrent' (fun h => hfilled (List.mem_cons_of_mem _ h)) hsteps)

theorem made_steps (steps : List BatchStep) : Made (steps.forM BatchStep.run) := by
  refine made_stepwise.forM (fun step => ?_) steps
  cases step with
  | top line => exact made_insertAtTop _
  | other r => exact made_record _ _ _ _

/-! ## Stacking -/

/-- The lines that the steps put at the top. -/
def BatchStep.lines (steps : List BatchStep) : List String := steps.filterMap line?

theorem eraseDups_of_nodup {α : Type} [BEq α] [LawfulBEq α] {l : List α} (h : l.Nodup) : l.eraseDups = l := by
  induction l with
  | nil => rfl
  | cons a l ih =>
    obtain ⟨hfresh, hrest⟩ := List.nodup_cons.mp h
    have hkept : (l.filter fun b => !b == a) = l := List.filter_eq_self.mpr fun b hb => by
      have hne : b ≠ a := ne_of_mem_of_not_mem hb hfresh
      rw [beq_eq_false_iff_ne.mpr hne]
      rfl
    rw [List.eraseDups_cons, hkept, ih hrest]

namespace Document

/-- The text that a batch of the requests makes of that of the document. -/
def edited (d : Document) (rs : List Request) : ByteArray :=
  ((Batch.open' d.generation).requestAll d.generation d.source.size rs).outcome d.source

theorem edited_eq (d : Document) (rs : List Request) :
    d.edited rs = Edit.madeFrom d.source 0 (TestMigration.recorded d.source.size rs) := by
  unfold edited
  rw [Batch.requestAll_open]
  rfl

/-- Where a block stacks lines at the top. A hash-bang line ends with a line feed; every edit is accepted, and no
line is empty; no other edit spans the top, and none that inserts a text there behind what goes ahead has the
text of one that does. -/
structure Stacks (d : Document) (steps : List BatchStep) : Prop where
  headed : ∀ line ∈ d.root.children.find? (·.kind == .hashBangLine), d.source.get! line.stop = 10
  filled : .top "" ∉ steps
  accepted : ∀ r : Request, .other r ∈ steps → (r.edit? d.source.size).isSome = true
  unspanned : ∀ r : Request, .other r ∈ steps → r.start < (d.prologue : Int) → r.stop ≤ (d.prologue : Int)
  unrepeated : ∀ r : Request, .other r ∈ steps → r.start = (d.prologue : Int) → r.stop = (d.prologue : Int) →
    r.ahead = false → ∀ step ∈ steps, (step.request d).tops d.prologue = true → (step.request d).text ≠ r.text

namespace Stacks

/-- The line goes ahead of everything at the top. -/
theorem tops_line (h : d.Stacks steps) (line : String) : ((BatchStep.top line).request d).tops d.prologue = true := by
  unfold BatchStep.request Request.tops
  rw [(top_eq_prologue h.headed).1]
  simp

theorem accepted_step (h : d.Stacks steps) :
    ∀ step ∈ steps, ((step.request d).edit? d.source.size).isSome = true := by
  intro step hstep
  cases step with
  | other r => exact h.accepted r hstep
  | top line =>
    obtain ⟨htop, hsize⟩ := top_eq_prologue h.headed
    change (Request.edit? _ ⟨d.top, d.top, _, true⟩).isSome = true
    unfold Request.edit?
    rw [if_pos (by unfold Request.InRange; dsimp only; omega), Text.toString?_line]
    rfl

theorem stackable (h : d.Stacks steps) :
    Request.Stackable d.prologue d.source.size (d.requests steps) := by
  have hother : ∀ step ∈ steps, (step.request d).tops d.prologue = false → ∃ r, step = .other r := by
    intro step _ hnot
    cases step with
    | other r => exact ⟨r, rfl⟩
    | top line => cases (h.tops_line line).symm.trans hnot
  refine ⟨List.forall_mem_map.mpr h.accepted_step, List.forall_mem_map.mpr fun step hstep hlt => ?_,
    List.forall_mem_map.mpr fun step hstep htops => List.forall_mem_map.mpr fun step' hstep' hstart hstop hnot => ?_⟩
  · obtain ⟨r, rfl⟩ := hother step hstep (Request.tops_of_lt hlt)
    exact h.unspanned r hstep hlt
  · obtain ⟨r, rfl⟩ := hother step' hstep' hnot
    refine h.unrepeated r hstep' hstart hstop ?_ step hstep htops
    have hrest := hnot
    unfold Request.tops at hrest
    rw [beq_iff_eq.mpr hstart, beq_iff_eq.mpr hstop, Bool.true_and, Bool.true_and] at hrest
    exact hrest

/-- If nothing else goes ahead of everything at the top, the lines stand there, the latest first. -/
theorem stacked_lines (h : d.Stacks steps) (halone : ∀ r : Request, .other r ∈ steps → r.tops d.prologue = false)
    (hdistinct : (BatchStep.lines steps).Nodup) :
    Request.stacked d.prologue (d.requests steps) = (BatchStep.lines steps).reverse.map (· ++ "\n") := by
  have htexts : ((d.requests steps).filter (·.tops d.prologue)).filterMap (·.text.toString?) =
      (BatchStep.lines steps).map (· ++ "\n") := by
    have hstep : ∀ step ∈ steps, (if (step.request d).tops d.prologue then (step.request d).text.toString?
        else none) = step.line?.map (· ++ "\n") := by
      intro step hmem
      cases step with
      | top line =>
        rw [if_pos (h.tops_line line)]
        exact Text.toString?_line line
      | other r =>
        rw [if_neg]
        · rfl
        · exact Bool.eq_false_iff.mp (halone r hmem)
    rw [requests, List.filter_map, List.filterMap_map, List.filterMap_filter]
    exact (List.filterMap_congr hstep).trans List.map_filterMap.symm
  have hends : ((BatchStep.lines steps).map (· ++ "\n")).Nodup :=
    hdistinct.map fun s t hsame => (String.append_left_inj _).mp hsame
  unfold Request.stacked
  rw [htexts, eraseDups_of_nodup hends, List.map_reverse]

end Stacks

/-- A block of steps makes the document anew with the text that their edits make, or leaves it as it was if that
is not read. -/
theorem batched_steps (closed : d.batch = none) (hfilled : .top "" ∉ steps)
    (haccepted : ∀ step ∈ steps, ((step.request d).edit? d.source.size).isSome = true) (hsome : steps ≠ []) :
    (∀ root, d.read (d.edited (d.requests steps)) = .ok root → ∃ b, batched (steps.forM BatchStep.run) d =
        .ok (⟨⟩, b) (d.reread (d.edited (d.requests steps)) root)) ∧
      ∀ place, d.read (d.edited (d.requests steps)) = .error place →
        ∃ snippet, batched (steps.forM BatchStep.run) d = .error (.invalidEdit place snippet) d := by
  have hrecords := records_steps (b := .open' d.generation) rfl rfl hfilled haccepted
  have hedits : ((Batch.open' d.generation).requestAll d.generation d.source.size
      (d.requests steps)).edits ≠ [] := by
    obtain ⟨step, rest, rfl⟩ := List.exists_cons_of_ne_nil hsome
    obtain ⟨e, he⟩ := Option.isSome_iff_exists.mp (haccepted step List.mem_cons_self)
    rw [Batch.requestAll_open]
    intro hnone
    have hmap := recorded_uncounted d.source.size (d.requests (step :: rest))
    rw [show TestMigration.recorded d.source.size (d.requests (step :: rest)) = [] from hnone, requests, List.map_cons,
      List.filterMap_cons_some he, List.eraseDupsBy_cons] at hmap
    cases hmap
  exact ⟨fun root hread => ⟨_, batched_of_something (made_steps steps) closed hrecords hedits hread⟩,
    fun place hread => batched_of_unread (made_steps steps) closed hrecords hedits hread⟩

/-- Lines that a block puts at the top stand there ahead of everything that its other edits leave, the latest
first. -/
theorem tops_stack (closed : d.batch = none) (h : d.Stacks steps) (hsome : steps ≠ []) :
    ∃ before behind : ByteArray,
      d.edited (Request.front d.prologue (d.requests steps)) =
        before ++ d.source.extract d.prologue d.source.size ∧
      d.edited (Request.rear d.prologue (d.requests steps)) = d.source.extract 0 d.prologue ++ behind ∧
      d.edited (Request.others d.prologue (d.requests steps)) = before ++ behind ∧
      (∀ text, text = before ++ (String.join (Request.stacked d.prologue (d.requests steps))).toUTF8 ++ behind →
        (∀ root, d.read text = .ok root →
          ∃ b, batched (steps.forM BatchStep.run) d = .ok (⟨⟩, b) (d.reread text root)) ∧
        ∀ place, d.read text = .error place →
          ∃ snippet, batched (steps.forM BatchStep.run) d = .error (.invalidEdit place snippet) d) ∧
      ((∀ r : Request, .other r ∈ steps → r.tops d.prologue = false) → (BatchStep.lines steps).Nodup →
        (String.join (Request.stacked d.prologue (d.requests steps))).toUTF8 =
          lineText (BatchStep.lines steps).reverse) := by
  obtain ⟨before, behind, hfront, hrear, hothers, hall⟩ := h.stackable.exists_parts (top_eq_prologue h.headed).2
  refine ⟨before, behind, (edited_eq d _).trans hfront, (edited_eq d _).trans hrear,
    (edited_eq d _).trans hothers, ?_, ?_⟩
  · rintro text rfl
    rw [← hall, ← edited_eq]
    exact batched_steps closed h.filled h.accepted_step hsome
  · intro halone hdistinct
    rw [h.stacked_lines halone hdistinct]
    rfl

/-- Two lines at the top, an insertion there and a replacement that begins there, by turns. -/
def blockAtTop : List BatchStep :=
  [.top "c();", .other ⟨4, 7, Text.ofString "b()", false⟩, .other ⟨4, 4, Text.ofString "d();\n", false⟩, .top "e();"]

theorem tops_stack_blockAtTop : ∃ d d' b before behind, Document.ofString none "#!n\na();\n" = .ok d ∧
    d.batch = none ∧ d.Stacks blockAtTop ∧ blockAtTop ≠ [] ∧
    d.edited (Request.others d.prologue (d.requests blockAtTop)) = before ++ behind ∧
    batched (blockAtTop.forM BatchStep.run) d = .ok (⟨⟩, b) d' ∧
    d'.source = before ++ lineText ["e();", "c();"] ++ behind ∧
    d'.source = "#!n\ne();\nc();\nd();\nb();\n".toUTF8 := by
  obtain ⟨d, hd, hobserved⟩ := exists_of_toOption_map (show (Document.ofString none "#!n\na();\n").toOption.map
    (fun d => (decide (∀ line ∈ d.root.children.find? (·.kind == .hashBangLine), d.source.get! line.stop = 10),
      d.prologue, d.source.size, match batched (blockAtTop.forM BatchStep.run) d with
        | .ok _ d' => some d'.source
        | .error _ _ => none)) =
      some (true, 4, 9, some "#!n\ne();\nc();\nd();\nb();\n".toUTF8) by decide +kernel)
  simp only [Prod.mk.injEq, decide_eq_true_eq] at hobserved
  obtain ⟨hheaded, hprologue, hsize, hrun⟩ := hobserved
  have closed : d.batch = none := (sound_of_ofBytes hd).2
  have hother : ∀ r : Request, .other r ∈ blockAtTop →
      r = ⟨4, 7, Text.ofString "b()", false⟩ ∨ r = ⟨4, 4, Text.ofString "d();\n", false⟩ := by
    intro r hr
    simpa [blockAtTop] using hr
  have hstacks : d.Stacks blockAtTop := by
    refine ⟨hheaded, by simp [blockAtTop], fun r hr => ?_, fun r hr hlt => ?_,
      fun r hr hstart hstop _ step hstep htops => ?_⟩
    · rw [hsize]
      rcases hother r hr with rfl | rfl <;> decide
    · rw [hprologue] at hlt
      rcases hother r hr with rfl | rfl <;> exact absurd hlt (by decide)
    · rw [hprologue] at hstop htops
      rcases hother r hr with rfl | rfl
      · exact absurd hstop (by decide)
      · simp only [blockAtTop, List.mem_cons, List.not_mem_nil, or_false] at hstep
        rcases hstep with rfl | rfl | rfl | rfl
        · exact (by decide : Text.ofString "c();" ++ [Glyph.char '\n'] ≠ Text.ofString "d();\n")
        · cases htops
        · cases htops
        · exact (by decide : Text.ofString "e();" ++ [Glyph.char '\n'] ≠ Text.ofString "d();\n")
  obtain ⟨before, behind, -, -, hothers, hall, hlines⟩ := tops_stack closed hstacks (List.cons_ne_nil _ _)
  have halone : ∀ r : Request, .other r ∈ blockAtTop → r.tops d.prologue = false := by
    intro r hr
    rw [hprologue]
    rcases hother r hr with rfl | rfl <;> decide
  obtain ⟨hread, hunread⟩ := hall _ rfl
  split at hrun
  · rename_i a d' hran
    cases hplaces : d.read (before ++
        (String.join (Request.stacked d.prologue (d.requests blockAtTop))).toUTF8 ++ behind) with
    | ok root =>
      obtain ⟨b, hb⟩ := hread root hplaces
      have hsource := Option.some.inj hrun
      obtain ⟨-, rfl⟩ := EStateM.Result.ok.inj (hran.symm.trans hb)
      refine ⟨d, _, b, before, behind, hd, closed, hstacks, List.cons_ne_nil _ _, hothers, hb, ?_, hsource⟩
      exact congrArg (before ++ · ++ behind) (hlines halone (by decide))
    | error place =>
      obtain ⟨snippet, hfails⟩ := hunread place hplaces
      cases hran.symm.trans hfails
  · cases hrun

/-- A line goes missing if an insertion has put its text there before, and comes below an edit that goes ahead of
it. -/
theorem tops_not_first : (∃ d d' b, Document.ofString none "a();\n" = .ok d ∧ d.batch = none ∧
    batched ([.other ⟨0, 0, Text.ofString "b();\n", false⟩, .top "c();", .top "b();"].forM BatchStep.run) d =
      .ok (⟨⟩, b) d' ∧ d'.source = "c();\nb();\na();\n".toUTF8 ∧
    ∀ rest, d'.source ≠ lineText ["b();", "c();"] ++ rest) ∧
    ∃ d d' b, Document.ofString none "a();\n" = .ok d ∧ d.batch = none ∧
      batched ([.top "c();", .other ⟨0, 0, Text.ofString "b();\n", true⟩].forM BatchStep.run) d = .ok (⟨⟩, b) d' ∧
      d'.source = "b();\nc();\na();\n".toUTF8 ∧ ∀ rest, d'.source ≠ lineText ["c();"] ++ rest := by
  have hruns : ∀ (steps : List BatchStep) (text : String) (lines : List String),
      (Document.ofString none "a();\n").toOption.map (fun d => match batched (steps.forM BatchStep.run) d with
        | .ok _ d' => some d'.source
        | .error _ _ => none) = some (some text.toUTF8) →
      text.toUTF8.extract 0 (lineText lines).size ≠ lineText lines →
      ∃ d d' b, Document.ofString none "a();\n" = .ok d ∧ d.batch = none ∧
        batched (steps.forM BatchStep.run) d = .ok (⟨⟩, b) d' ∧ d'.source = text.toUTF8 ∧
        ∀ rest, d'.source ≠ lineText lines ++ rest := by
    intro steps text lines hrun hprefix
    obtain ⟨d, hd, hrun⟩ := exists_of_toOption_map hrun
    split at hrun
    · rename_i a d' hran
      have hsource := Option.some.inj hrun
      refine ⟨d, d', a.2, hd, (sound_of_ofBytes hd).2, hran, hsource, fun rest heq => hprefix ?_⟩
      rw [← hsource, heq, ByteArray.extract_append_eq_left rfl]
    · cases hrun
  exact ⟨hruns _ _ _ (by decide +kernel) (by decide +kernel), hruns _ _ _ (by decide +kernel) (by decide +kernel)⟩

end Document

end Blocks

end TestMigration
