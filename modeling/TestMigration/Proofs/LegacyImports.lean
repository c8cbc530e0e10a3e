import TestMigration.Proofs.Exchange
import TestMigration.Proofs.Heading

/-! Imports of the old library, exchanged for the lines of the new one. All of them go in one block, each
with the lines that it has for itself, and the new lines come to stand at the top, in their order. -/

namespace TestMigration

open Script (Node Kind Place)

/-! ## Import statements of a script -/

/-- The node ends before the other one begins, or has it within it, away from both ends. -/
def Script.Place.Ahead (p q : Place) : Prop :=
  p.node.stop ≤ q.node.start ∨ p.node.start < q.node.start ∧ q.node.stop < p.node.stop

namespace Document

/-- The imports of a module, in the order of a walk. -/
def importsOf (d : Document) (module : String) : List Place :=
  d.places.filter fun p =>
    p.node.kind == .importStatement && d.moduleName? p == some (Text.ofString module)

def legacyImports (d : Document) : List Place := d.importsOf Import.legacyModule

/-- The import statements of the tree. -/
def importStatements (d : Document) : List Place := d.places.filter (·.node.kind == .importStatement)

/-- Where nodes are in the text of a script. Children lie within their nodes, one behind the other. Import
statements begin and end with something visible, no two of them at one place, and all of them are on lines
below a hash-bang line. -/
structure Placed (d : Document) : Prop where
  laid : d.root.laid = true
  visible : ∀ p ∈ d.importStatements, d.Visible p
  starts : (d.importStatements.map (·.node.start)).Nodup
  stops : (d.importStatements.map (·.node.stop)).Nodup
  below : ∀ line ∈ d.root.children.find? (·.kind == .hashBangLine), d.source.get! line.stop = 10 ∧
    ∀ p ∈ d.importStatements, line.stop < p.node.start

instance (d : Document) : DecidablePred d.Visible := fun p =>
  decidable_of_iff (p.node.start < p.node.stop ∧ p.node.stop ≤ d.source.size ∧
      isBlankByte (d.source.get! p.node.start) = false ∧ isBlankByte (d.source.get! (p.node.stop - 1)) = false)
    ⟨fun h => ⟨h.1, h.2.1, h.2.2.1, h.2.2.2⟩, fun h => ⟨h.wide, h.inside, h.first, h.last⟩⟩

instance (d : Document) : Decidable d.Placed :=
  decidable_of_iff (d.root.laid = true ∧ (∀ p ∈ d.importStatements, d.Visible p) ∧
      (d.importStatements.map (·.node.start)).Nodup ∧ (d.importStatements.map (·.node.stop)).Nodup ∧
      ∀ line ∈ d.root.children.find? (·.kind == .hashBangLine), d.source.get! line.stop = 10 ∧
        ∀ p ∈ d.importStatements, line.stop < p.node.start)
    ⟨fun h => ⟨h.1, h.2.1, h.2.2.1, h.2.2.2.1, h.2.2.2.2⟩,
      fun h => ⟨h.laid, h.visible, h.starts, h.stops, h.below⟩⟩

/-- The length of the hash-bang line with its line feed. -/
def prologue (d : Document) : Nat :=
  (d.root.children.find? (·.kind == .hashBangLine)).elim 0 (·.stop + 1)

/-- The byte goes with an import of the old library. -/
def Gone (d : Document) (i : Nat) : Prop := ∃ p ∈ d.legacyImports, d.Takes p i

instance (d : Document) : DecidablePred d.Gone := fun _ => inferInstanceAs (Decidable (∃ _ ∈ _, _))

end Document

/-- The lines of the header. -/
def Import.lines (attr : Text) (emitSetup : Bool) : List String :=
  renderLine :: if emitSetup then (setupLines attr).map Text.shown else []

/-- The text with the header in the place of the imports of the old library. -/
def Document.modernized (d : Document) (attr : Text) (emitSetup : Bool) : ByteArray :=
  d.source.extract 0 d.prologue ++ lineText (Import.lines attr emitSetup) ++
    without d.source d.Gone d.prologue

namespace Document

variable {d : Document} {p q : Place} {module : String}

/-! ## The top -/

/-- The hash-bang line ends right behind its node. -/
theorem lineStop_eq {offset : Nat} (hfeed : d.source.get! offset = 10) :
    d.lineStop offset = offset + 1 ∧ offset < d.source.size := by
  have hlt : offset < d.source.size := by
    by_contra hge
    have hnone : d.source.get! offset = default := getElem!_neg d.source.data offset hge
    rw [hnone] at hfeed
    exact absurd hfeed (by decide)
  have hends := endsLine_lineStop hlt.le
  have hclear : ¬ offset + 1 < d.lineStop offset := fun h => hends.clear offset (Nat.le_refl _) h hfeed
  have hends' := hends.ends
  exact ⟨by omega, hlt⟩

theorem top_eq_prologue
    (h : ∀ line ∈ d.root.children.find? (·.kind == .hashBangLine), d.source.get! line.stop = 10) :
    d.top = d.prologue ∧ d.prologue ≤ d.source.size := by
  unfold top prologue
  cases hline : d.root.children.find? (·.kind == .hashBangLine) with
  | none => exact ⟨rfl, Nat.zero_le _⟩
  | some line => exact lineStop_eq (h line hline)

/-! ## What is found -/

theorem mem_importsOf : p ∈ d.importsOf module ↔ p ∈ d.places ∧ p.node.kind = .importStatement ∧
    d.moduleName? p = some (Text.ofString module) := by
  unfold importsOf
  rw [List.mem_filter, Bool.and_eq_true_iff, beq_iff_eq, beq_iff_eq]

theorem importsOf_sublist (module : String) : (d.importsOf module).Sublist d.importStatements :=
  List.monotone_filter_right _ fun _ h => (Bool.and_eq_true_iff.mp h).1

namespace Placed

theorem visible_of_mem (hplaced : d.Placed) (hp : p ∈ d.importsOf module) : d.Visible p :=
  hplaced.visible p ((importsOf_sublist module).subset hp)

theorem pairs (hplaced : d.Placed) : d.importStatements.Pairwise Place.Ahead := by
  have hprecedes : d.importStatements.Pairwise Place.Precedes :=
    (Place.walk_precedes [] d.root hplaced.laid).sublist List.filter_sublist
  refine (hprecedes.and ((List.pairwise_map.mp hplaced.starts).and (List.pairwise_map.mp hplaced.stops))).imp ?_
  rintro p q ⟨hpq, hstart, hstop⟩
  rcases hpq with hbefore | ⟨hfirst, hlast⟩
  · exact .inl hbefore
  · exact .inr ⟨hfirst.lt_of_ne hstart, hlast.lt_of_ne hstop.symm⟩

theorem findAll_importsOf (hplaced : d.Placed) (hd : d.Legible) (hnamed : d.ImportsNamed) (module : String) :
    findAll (Import.importsFrom module) d = .ok ((d.importsOf module).map d.handle) := by
  rw [findAll_eq fun p hp => holdsOf_importsFrom_named hd hnamed hp module, found_eq_filter]
  · rfl
  · refine (List.pairwise_map.mp (hplaced.starts.sublist ((importsOf_sublist module).map _))).imp ?_
    exact fun hne => .inl fun hsame => hne (congrArg Prod.fst hsame)

/-- What goes with an import is apart from what goes with one behind it, or has it within. -/
theorem clears (hplaced : d.Placed) (module : String) :
    ((d.importsOf module).map d.extent).Pairwise Stretch.Clears := by
  refine List.pairwise_map.mpr ((hplaced.pairs.sublist (importsOf_sublist module)).imp_of_mem ?_)
  intro p q hp hq hpq
  have hp := hplaced.visible_of_mem hp
  have hq := hplaced.visible_of_mem hq
  rcases hpq with hbefore | ⟨hfirst, hlast⟩
  · exact .inl (extent_apart hp hq hbefore)
  · obtain ⟨hstart, hstop⟩ := extent_within hp hq hfirst hlast
    obtain ⟨hle, hle', -⟩ := extent_inside hp.holds
    exact .inr ⟨hle.trans_lt hstart, hstop.le.trans hle'⟩

theorem extent_wide (hplaced : d.Placed) (module : String) : ∀ r ∈ (d.importsOf module).map d.extent, r.1 < r.2 := by
  intro r hr
  obtain ⟨p, hp, rfl⟩ := List.mem_map.mp hr
  have hvisible := hplaced.visible_of_mem hp
  obtain ⟨hle, hle', -⟩ := extent_inside hvisible.holds
  exact hle.trans_lt (hvisible.wide.trans_le hle')

theorem extent_in_text (hplaced : d.Placed) (module : String) :
    ∀ r ∈ (d.importsOf module).map d.extent, r.2 ≤ d.source.size := by
  intro r hr
  obtain ⟨p, hp, rfl⟩ := List.mem_map.mp hr
  exact (extent_inside (hplaced.visible_of_mem hp).holds).2.2

theorem nodup_extents (hplaced : d.Placed) (module : String) : ((d.importsOf module).map d.extent).Nodup := by
  refine (hplaced.clears module).imp_of_mem fun {a b} ha _ hab hsame => ?_
  have hwide := hplaced.extent_wide module a ha
  unfold Stretch.Clears at hab
  rw [← hsame] at hab
  omega

theorem top_eq (hplaced : d.Placed) : d.top = d.prologue ∧ d.prologue ≤ d.source.size :=
  top_eq_prologue fun line hline => (hplaced.below line hline).1

/-- Nothing above the top goes with an import. -/
theorem top_le_extent (hplaced : d.Placed) (module : String) :
    ∀ r ∈ (d.importsOf module).map d.extent, d.prologue ≤ r.1 := by
  intro r hr
  obtain ⟨p, hp, rfl⟩ := List.mem_map.mp hr
  have hstatement := (importsOf_sublist module).subset hp
  unfold prologue
  cases hline : d.root.children.find? (·.kind == .hashBangLine) with
  | none => exact Nat.zero_le _
  | some line =>
    obtain ⟨hfeed, hbelow⟩ := hplaced.below line hline
    have hlt := hbelow p hstatement
    rw [Option.elim_some]
    rcases extent_cases (hplaced.visible p hstatement).holds with ⟨-, -, hextent⟩ | ⟨-, hextent⟩
    · rw [hextent]
      by_contra hle
      have hbegins := (hplaced.visible p hstatement).holds.beginsLine
      exact hbegins.clear line.stop (by omega) hlt hfeed
    · rw [hextent]
      exact hlt

end Placed

/-! ## What is deferred -/

/-- An import within another one of the same module, whose removal is left to that of the other. -/
def Within (d : Document) (module : String) (e : Edit) : Prop :=
  ∃ p ∈ d.importsOf module, ∃ q ∈ d.importsOf module,
    p.node.start < q.node.start ∧ q.node.stop < p.node.stop ∧ e.Puts (d.extent q).1 (d.extent q).2 ""

/-- Where a removal lies in another one, so does the one import in the other. -/
theorem Placed.within_of_extents (hplaced : d.Placed) (hp : p ∈ d.importsOf module)
    (hq : q ∈ d.importsOf module) (hstart : (d.extent p).1 < (d.extent q).1)
    (hstop : (d.extent q).2 ≤ (d.extent p).2) :
    p.node.start < q.node.start ∧ q.node.stop < p.node.stop := by
  have hsymm : Std.Symm fun p q : Place => p.Ahead q ∨ q.Ahead p := ⟨fun _ _ => Or.symm⟩
  have hpairs : (d.importsOf module).Pairwise fun p q => p.Ahead q ∨ q.Ahead p :=
    (hplaced.pairs.sublist (importsOf_sublist module)).imp .inl
  have hne : p ≠ q := by
    rintro rfl
    omega
  have hvisible := hplaced.visible_of_mem hp
  have hvisible' := hplaced.visible_of_mem hq
  have hwide := hplaced.extent_wide module _ (List.mem_map_of_mem hq)
  rcases hpairs.forall hp hq hne with (h | h) | (h | ⟨hfirst, hlast⟩)
  · have hapart := extent_apart hvisible hvisible' h
    omega
  · exact h
  · have hapart := extent_apart hvisible' hvisible h
    omega
  · have hwithin := extent_within hvisible' hvisible hfirst hlast
    have hinside := extent_inside hvisible'.holds
    omega

theorem Placed.deferred_within (hplaced : d.Placed) {lines : List String} {e : Edit}
    (he : e ∈ (Batch.headed d.generation ((d.importsOf module).map d.extent) d.prologue lines).settled.2) :
    d.Within module e := by
  have hbehind := hplaced.top_le_extent module
  rw [Batch.settled_headed (hplaced.extent_wide module) hbehind (hplaced.clears module)] at he
  obtain ⟨a, ha, hstart, hstop⟩ := Edit.settle_removals (hplaced.clears module) hbehind e he
  obtain ⟨hrange, htext⟩ := Edit.mem_removals
    ((Edit.settle_perm d.prologue _).subset (List.mem_append_right _ he))
  obtain ⟨houter, -⟩ := Edit.mem_removals ((Edit.settle_sublist d.prologue _).subset ha)
  obtain ⟨q, hq, hextent⟩ := List.mem_map.mp hrange
  obtain ⟨p, hp, hextent'⟩ := List.mem_map.mp houter
  have hwithin := hplaced.within_of_extents hp hq (by rw [hextent, hextent']; exact hstart)
    (by rw [hextent, hextent']; exact hstop)
  refine ⟨p, hp, q, hq, hwithin.1, hwithin.2, ?_⟩
  rw [hextent]
  exact ⟨rfl, rfl, htext⟩

end Document

namespace Import

variable {d : Document} {attr : Text} {emitSetup : Bool}

/-! ## The header -/

theorem header_eq (hattr : emitSetup = true → attr.Whole) {legacy : List Handle} (hlegacy : legacy ≠ []) :
    header legacy attr emitSetup = (lines attr emitSetup).map Text.ofString := by
  unfold header lines
  rw [if_neg (by simpa using hlegacy), List.map_cons]
  congr 1
  cases emitSetup with
  | false => rfl
  | true =>
    have hwhole : ∀ line ∈ setupLines attr, Text.ofString line.shown = line := by
      intro line hline
      refine Text.Whole.ofString_shown ?_
      rcases List.mem_cons.mp hline with rfl | hline
      · exact Text.whole_ofString
      rcases List.mem_cons.mp hline with rfl | hline
      · exact Text.whole_ofString
      rw [List.mem_singleton.mp hline]
      exact (Text.whole_ofString.append (hattr rfl).encode).append Text.whole_ofString
    rw [if_pos rfl, if_pos rfl, List.map_map]
    exact ((List.map_congr_left hwhole).trans (List.map_id _)).symm

/-- The lines of a header with setup that are imports. -/
def importLines : List String :=
  [renderLine, "import \"@testing-library/jest-dom\";", "import \x7b configure \x7d from \"@testing-library/dom\";"]

/-- The line that is a call. -/
def configureLine (attr : Text) : String :=
  (Text.ofString "configure(\x7b testIdAttribute: " ++ Quoted.encode attr ++ Text.ofString " \x7d);").shown

theorem lines_setup (attr : Text) : lines attr true = importLines ++ [configureLine attr] := by
  unfold lines setupLines
  rw [if_pos rfl, List.map_cons, List.map_cons, List.map_singleton, Text.shown_ofString,
    Text.shown_ofString]
  rfl

theorem head_importLines : ∀ line ∈ importLines, line.toList.head? = some 'i' := by decide

theorem head_configureLine (attr : Text) : (configureLine attr).toList.head? = some 'c' := by
  rw [configureLine, Text.shown, String.toList_ofList, show Text.ofString "configure(\x7b testIdAttribute: " =
    .char 'c' :: Text.ofString "onfigure(\x7b testIdAttribute: " from rfl]
  rfl

theorem nodup_lines (attr : Text) (emitSetup : Bool) : (lines attr emitSetup).Nodup := by
  cases emitSetup with
  | false => exact List.nodup_singleton _
  | true =>
    have himports : importLines.Nodup := by decide
    rw [lines_setup]
    refine himports.concat fun hmem => ?_
    have hhead := head_importLines _ hmem
    rw [head_configureLine] at hhead
    cases hhead

theorem ne_of_mem_lines {line : String} (h : line ∈ lines attr emitSetup) : line ≠ "" := by
  rintro rfl
  cases emitSetup with
  | false => exact absurd (List.mem_singleton.mp h) (by decide)
  | true =>
    rw [lines_setup] at h
    rcases List.mem_append.mp h with h | h
    · exact absurd (head_importLines _ h) (by decide)
    · have hhead := head_configureLine attr
      rw [← List.mem_singleton.mp h] at hhead
      cases hhead

/-! ## The pass -/

/-- The edits that the exchange records. -/
def swap (d : Document) (attr : Text) (emitSetup : Bool) : Batch :=
  .headed d.generation (d.legacyImports.map d.extent) d.prologue (lines attr emitSetup).reverse

theorem edits_swap_ne : (swap d attr emitSetup).edits ≠ [] := by
  refine List.append_ne_nil_of_right_ne_nil _ fun hnil => ?_
  have hlength := congrArg List.length hnil
  rw [Edit.length_heading, List.length_reverse] at hlength
  cases hlength

theorem records_exchange (hplaced : d.Placed) (hlegacy : d.legacyImports ≠ [])
    (hattr : emitSetup = true → attr.Whole) :
    Records (exchange (d.legacyImports.map d.handle) (header (d.legacyImports.map d.handle) attr emitSetup))
      d (.open' d.generation) ⟨⟩ (swap d attr emitSetup) := by
  obtain ⟨htop, hinside⟩ := hplaced.top_eq
  have hwide := hplaced.extent_wide legacyModule
  have hremoves : Records ((d.legacyImports.map d.handle).forM (·.remove)) d (.open' d.generation) ⟨⟩
      (.headed d.generation (d.legacyImports.map d.extent) d.top []) := by
    rw [Batch.headed_nothing]
    refine @records_removeEach d d.legacyImports [] (hplaced.nodup_extents legacyModule) fun p hp => ?_
    have hmem := List.mem_map_of_mem (f := d.extent) hp
    exact ⟨(hwide _ hmem).le, hplaced.extent_in_text legacyModule _ hmem⟩
  have hinserts : Records (((lines attr emitSetup).reverse.map Text.ofString).forM Document.insertAtTop) d
      (.headed d.generation (d.legacyImports.map d.extent) d.top []) ⟨⟩
      (.headed d.generation (d.legacyImports.map d.extent) d.top ([] ++ (lines attr emitSetup).reverse)) :=
    records_insertEach hwide (htop ▸ hinside) (List.nodup_reverse.mpr (nodup_lines attr emitSetup))
      fun line hline => ne_of_mem_lines (List.mem_reverse.mp hline)
  unfold exchange swap
  rw [header_eq hattr (by simpa using hlegacy), ← List.map_reverse, ← htop]
  exact hremoves.andThen hinserts

theorem outcome_swap (hplaced : d.Placed) :
    (swap d attr emitSetup).outcome d.source = d.modernized attr emitSetup := by
  have hgone : ∀ i < d.source.size, d.Gone i ↔ ∃ r ∈ d.legacyImports.map d.extent, r.1 ≤ i ∧ i < r.2 := by
    intro i hi
    have htakes : ∀ p ∈ d.legacyImports, d.Takes p i ↔ (d.extent p).1 ≤ i ∧ i < (d.extent p).2 :=
      fun p hp => Document.takes_iff (hplaced.visible_of_mem hp).holds hi
    constructor
    · rintro ⟨p, hp, hin⟩
      exact ⟨_, List.mem_map_of_mem hp, (htakes p hp).mp hin⟩
    · rintro ⟨r, hr, hin⟩
      obtain ⟨p, hp, rfl⟩ := List.mem_map.mp hr
      exact ⟨p, hp, (htakes p hp).mpr hin⟩
  refine (Batch.outcome_headed (hplaced.extent_wide legacyModule) (hplaced.top_le_extent legacyModule)
    (hplaced.clears legacyModule) (hplaced.extent_in_text legacyModule) hplaced.top_eq.2 hgone).trans ?_
  rw [List.reverse_reverse]
  rfl

theorem batched_exchange {root : Node} (closed : d.batch = none) (hplaced : d.Placed)
    (hattr : emitSetup = true → attr.Whole) (hlegacy : d.legacyImports ≠ [])
    (hread : d.read (d.modernized attr emitSetup) = .ok root) :
    Document.batched (exchange (d.legacyImports.map d.handle)
        (header (d.legacyImports.map d.handle) attr emitSetup)) d =
      .ok ((), (swap d attr emitSetup).spent) (d.reread (d.modernized attr emitSetup) root) := by
  rw [← outcome_swap hplaced] at hread ⊢
  exact Document.batched_of_something (made_exchange _ _) closed (records_exchange hplaced hlegacy hattr)
    edits_swap_ne hread

/-- The imports of the old library are exchanged for the header, which comes to stand at the top. Each
of them goes with the lines that it has for itself, if it stands where statements do, and nothing else
goes. Only removals of imports within other ones are deferred, as these go with the others. -/
theorem replace_modernizes {cwd : PathName} {file : Option String} {findings : List Diagnostic} {root : Node}
    (closed : d.batch = none) (hd : d.Legible) (hplaced : d.Placed) (hnamed : d.ImportsNamed)
    (hattr : emitSetup = true → attr.Whole) (hlegacy : d.legacyImports ≠ [])
    (hread : d.read (d.modernized attr emitSetup) = .ok root) :
    replace cwd none attr emitSetup ⟨d, file, findings⟩ =
        .ok true ⟨d.reread (d.modernized attr emitSetup) root, file, findings⟩ ∧
      findAll (importsFrom legacyModule) d = .ok (d.legacyImports.map d.handle) ∧
      ∃ b, Document.batched (exchange (d.legacyImports.map d.handle)
          (header (d.legacyImports.map d.handle) attr emitSetup)) d =
            .ok ((), b) (d.reread (d.modernized attr emitSetup) root) ∧
        ∀ e ∈ b.deferred, d.Within legacyModule e := by
  have hrun := batched_exchange closed hplaced hattr hlegacy hread
  have hfound := hplaced.findAll_importsOf hd hnamed legacyModule
  refine ⟨?_, hfound, _, hrun, fun e he => hplaced.deferred_within he⟩
  have hreport : reportMissing (d.legacyImports.map d.handle) ⟨d, file, findings⟩ =
      .ok () ⟨d, file, findings⟩ := by
    unfold reportMissing
    rw [if_neg (by simpa using hlegacy)]
    rfl
  have hlift := Pass.lift_of_ok (s := ⟨d, file, findings⟩) hrun
  have hanswer : (d.legacyImports.map d.handle).isEmpty = false := by simpa using hlegacy
  refine (Leaves.of_bind_ok (Pass.look_eq hfound)).trans ((Leaves.of_bind_ok hreport).trans
    ((Leaves.of_bind_ok hlift).trans ?_))
  rw [hanswer]
  rfl

/-- A hash-bang line, an import on a line of its own and one that shares its line. -/
def headedScript : String := "#!/bin/x\nimport 'enzyme';\nimport \"enzyme\"; f();\n"

theorem replace_modernizes_headed : ∃ (d : Document) (root : Node),
    Document.ofString none headedScript = .ok d ∧ d.batch = none ∧ d.Legible ∧ d.Placed ∧ d.ImportsNamed ∧
      Text.Whole ("id" : String) ∧ d.legacyImports ≠ [] ∧
      d.read (d.modernized ("id" : String) false) = .ok root ∧
      replace .root none ("id" : String) false ⟨d, none, []⟩ =
        .ok true ⟨d.reread (d.modernized ("id" : String) false) root, none, []⟩ ∧
      d.modernized ("id" : String) false =
        "#!/bin/x\nimport \x7b render, screen \x7d from \"@testing-library/react\";\n f();\n".toUTF8 := by
  have hchecks : (Document.ofString none headedScript).toOption.map (fun d =>
      (decide d.Placed, decide d.ImportsNamed, d.legacyImports.length,
        (d.read ((swap d ("id" : String) false).outcome d.source)).isOk,
        spelledBy ["#!/bin/x\nimport \x7b render, screen \x7d from \"@testing-library/react\";\n f();\n"]
          ((swap d ("id" : String) false).outcome d.source))) = some (true, true, 2, true, true) := by
    decide +kernel
  obtain ⟨d, hd, hchecks⟩ := exists_of_toOption_map hchecks
  simp only [Prod.mk.injEq, decide_eq_true_eq] at hchecks
  obtain ⟨hplaced, hnamed, hcount, hreads, hspelled⟩ := hchecks
  have htext := eq_of_spelledBy hspelled
  rw [outcome_swap hplaced] at hreads htext
  have hlegible := Document.legible_ofString hd
  have hclosed := (Document.sound_of_ofBytes hd).2
  have hlegacy : d.legacyImports ≠ [] := List.ne_nil_of_length_pos (by omega)
  have hwhole : Text.Whole ("id" : String) := Text.whole_ofString
  cases hread : d.read (d.modernized ("id" : String) false) with
  | error place =>
    rw [hread] at hreads
    cases hreads
  | ok root =>
    exact ⟨d, root, hd, hclosed, hlegible, hplaced, hnamed, hwhole, hlegacy, hread,
      (replace_modernizes hclosed hlegible hplaced hnamed (fun _ => hwhole) hlegacy hread).1, htext⟩

/-- An import that stands below a condition leaves the rest of its line behind; the removal of an import
within another one is deferred; and a module's name that no text can have stops the pass. -/
theorem replace_falls_short :
    (∃ d s, Document.ofString none "if (x)\n  import 'enzyme';\nfoo();\n" = .ok d ∧ d.Placed ∧
      (∃ p ∈ d.legacyImports, d.Alone p.node.range) ∧
      replace .root none ("data-testid" : String) false ⟨d, none, []⟩ = .ok true s ∧
      s.document.source = ("import \x7b render, screen \x7d from \"@testing-library/react\";\n" ++
        "if (x)\n  \nfoo();\n").toUTF8) ∧
    (∃ (d d' : Document) (b : Batch),
      Document.ofString none "import 'enzyme' with \x7ba() \x7bimport 'enzyme'\x7d\x7d" = .ok d ∧ d.Placed ∧
      Document.batched (exchange (d.legacyImports.map d.handle)
        (header (d.legacyImports.map d.handle) ("data-testid" : String) false)) d = .ok ((), b) d' ∧
      b.deferred ≠ []) ∧
    ∃ d e s, Document.ofString none "import 'enzyme';import '\\u\x7b110000\x7d'" = .ok d ∧ d.Placed ∧
      d.legacyImports ≠ [] ∧ replace .root none ("data-testid" : String) false ⟨d, none, []⟩ = .error e s := by
  refine ⟨?_, ?_, ?_⟩
  · have hrun : (replace .root none ("data-testid" : String) false).onScript?
        "if (x)\n  import 'enzyme';\nfoo();\n" (fun d done s => (done, decide d.Placed,
          decide (∃ p ∈ d.legacyImports, d.Alone p.node.range),
          spelledBy ["import \x7b render, screen \x7d from \"@testing-library/react\";\n",
            "if (x)\n  \nfoo();\n"] s.document.source)) = some (true, true, true, true) := by decide +kernel
    obtain ⟨d, done, s, hd, hrun, hobserved⟩ := Pass.exists_of_onScript? hrun
    simp only [Prod.mk.injEq, decide_eq_true_eq] at hobserved
    obtain ⟨rfl, hplaced, halone, hspelled⟩ := hobserved
    exact ⟨d, s, hd, hplaced, halone, hrun, eq_of_spelledBy hspelled⟩
  · have hrun : (Document.ofString none "import 'enzyme' with \x7ba() \x7bimport 'enzyme'\x7d\x7d").toOption.map
        (fun d => (decide d.Placed, match Document.batched (exchange (d.legacyImports.map d.handle)
          (header (d.legacyImports.map d.handle) ("data-testid" : String) false)) d with
        | .ok a _ => a.2.deferred.length
        | .error _ _ => 0)) = some (true, 1) := by decide +kernel
    obtain ⟨d, hd, hobserved⟩ := exists_of_toOption_map hrun
    simp only [Prod.mk.injEq, decide_eq_true_eq] at hobserved
    obtain ⟨hplaced, hdeferred⟩ := hobserved
    split at hdeferred
    · rename_i a d' hrun
      exact ⟨d, d', a.2, hd, hplaced, hrun, List.ne_nil_of_length_pos (by omega)⟩
    · cases hdeferred
  · have hrun : (Document.ofString none "import 'enzyme';import '\\u\x7b110000\x7d'").toOption.map
        (fun d => (decide d.Placed, d.legacyImports.length,
          match replace .root none ("data-testid" : String) false ⟨d, none, []⟩ with
        | .ok _ _ => false
        | .error _ _ => true)) = some (true, 1, true) := by decide +kernel
    obtain ⟨d, hd, hobserved⟩ := exists_of_toOption_map hrun
    simp only [Prod.mk.injEq, decide_eq_true_eq] at hobserved
    obtain ⟨hplaced, hcount, hfails⟩ := hobserved
    split at hfails
    · cases hfails
    · rename_i e s hrun
      exact ⟨d, e, s, hd, hplaced, List.ne_nil_of_length_pos (by omega), hrun⟩

end Import

end TestMigration
