import Mathlib.Data.List.Flatten
import TestMigration.Proofs.Absolutes
import TestMigration.Proofs.ImportNames

/-! Names that the header brings. It is put on top without a look at the imports that stay, so its names are
bound twice where one of these binds one of them already. Everything else keeps the names apart: what goes
takes its names along, and specifiers that are made absolute leave all names as they are. -/

namespace TestMigration

open Script (Node Kind Field Place)

/-! ## Names under new literals -/

theorem flatMap_of_forall₂ {α β γ : Type} {R : α → β → Prop} {as : List α} {bs : List β} {f : α → List γ}
    {g : β → List γ} (h : List.Forall₂ R as bs) (hfg : ∀ a ∈ as, ∀ b, R a b → f a = g b) :
    as.flatMap f = bs.flatMap g := by
  induction h with
  | nil => rfl
  | @cons a b as bs hab _ ih =>
    obtain ⟨ha, has⟩ := List.forall_mem_cons.mp hfg
    rw [List.flatMap_cons, List.flatMap_cons, ha b hab, ih has]

theorem forall₂_or {α β : Type} {R : α → β → Prop} {a b : Option α} {a' b' : Option β} (ha : Option.Rel R a a')
    (hb : Option.Rel R b b') : List.Forall₂ R (a.or b).toList (a'.or b').toList := by
  cases ha with
  | some ha => exact .cons ha .nil
  | none =>
    cases hb with
    | some hb => exact .cons hb .nil
    | none => exact .nil

namespace Document

/-- Identifiers have no parts, and no statement is part of a string. -/
structure Plain (d : Document) : Prop where
  words : ∀ p ∈ d.places, p.node.kind = .identifier → p.node.children = []
  strings : ∀ p ∈ d.places, p.node.kind = .string → ∀ q ∈ p.descendants, namesModule q.node = false

instance (d : Document) : Decidable d.Plain :=
  decidable_of_iff
    ((∀ p ∈ d.places, p.node.kind = .identifier → p.node.children = []) ∧
      ∀ p ∈ d.places, p.node.kind = .string → ∀ q ∈ p.descendants, namesModule q.node = false)
    ⟨fun h => ⟨h.1, h.2⟩, fun h => ⟨h.words, h.strings⟩⟩

variable {d d' : Document} {p p' : Place} {n n' : Node} {new : Node → Option String}

theorem filter_walk_string {above : List Node} (h : ∀ q ∈ Place.walk above n, namesModule q.node = false) :
    (Place.walk above n).filter (·.node.kind == .importStatement) = [] := by
  refine List.filter_eq_nil_iff.mpr fun q hq hkind => ?_
  have hnot := h q hq
  unfold namesModule at hnot
  rw [beq_iff_eq.mp hkind] at hnot
  cases hnot

mutual

/-- The imports of both trees are the same ones, in the same order. -/
theorem imports_of_relinks (above above' : List Node) : ∀ n n' : Node, relinks d d' new n n' = true →
    (∀ q ∈ Place.walk above n, q.node.kind = .string → ∀ r ∈ q.descendants, namesModule r.node = false) →
    (∀ q ∈ Place.walk above' n', q.node.kind = .string → ∀ r ∈ q.descendants, namesModule r.node = false) →
      List.Forall₂ (Matches d d' new) ((Place.walk above n).filter (·.node.kind == .importStatement))
        ((Place.walk above' n').filter (·.node.kind == .importStatement))
  | .mk role kind start stop children, .mk role' kind' start' stop' children' => by
    intro h hplain hplain'
    obtain ⟨-, hkind, -, hparts⟩ := relinks_cases h
    by_cases hstring : kind = .string
    · have hstring' : kind' = .string := hkind.symm.trans hstring
      rw [filter_walk_string (hplain ⟨_, above⟩ (Place.mem_walk _ _) hstring),
        filter_walk_string (hplain' ⟨_, above'⟩ (Place.mem_walk _ _) hstring')]
      exact .nil
    · rw [Place.walk] at hplain hplain' ⊢
      rw [Place.walk, List.filter_cons, List.filter_cons]
      have hbelow := imports_of_relinksAll (.mk role kind start stop children :: above)
        (.mk role' kind' start' stop' children' :: above') children children' (hparts hstring).2
        (fun q hq => hplain q (List.mem_cons_of_mem _ hq)) fun q hq => hplain' q (List.mem_cons_of_mem _ hq)
      change List.Forall₂ _ (if (kind == .importStatement) = true then _ else _)
        (if (kind' == .importStatement) = true then _ else _)
      obtain rfl : kind = kind' := hkind
      split
      · exact .cons h hbelow
      · exact hbelow

theorem imports_of_relinksAll (above above' : List Node) : ∀ ns ns' : List Node,
    List.Forall₂ (fun n n' => relinks d d' new n n' = true) ns ns' →
    (∀ q ∈ Place.walkAll above ns, q.node.kind = .string → ∀ r ∈ q.descendants, namesModule r.node = false) →
    (∀ q ∈ Place.walkAll above' ns', q.node.kind = .string → ∀ r ∈ q.descendants, namesModule r.node = false) →
      List.Forall₂ (Matches d d' new) ((Place.walkAll above ns).filter (·.node.kind == .importStatement))
        ((Place.walkAll above' ns').filter (·.node.kind == .importStatement))
  | [], [] => fun _ _ _ => .nil
  | [], _ :: _ => fun h _ _ => by cases h
  | _ :: _, [] => fun h _ _ => by cases h
  | n :: rest, n' :: rest' => by
    intro h hplain hplain'
    obtain ⟨hn, hrest⟩ := List.forall₂_cons.mp h
    rw [Place.walkAll] at hplain hplain' ⊢
    rw [Place.walkAll, List.filter_append, List.filter_append]
    refine List.rel_append ?_ (imports_of_relinksAll above above' rest rest' hrest
      (fun q hq => hplain q (List.mem_append_right _ hq)) fun q hq => hplain' q (List.mem_append_right _ hq))
    rw [(relinks_cases hn).2.1] at hplain ⊢
    split
    · rename_i hnamed
      rw [if_pos hnamed] at hplain hplain'
      exact imports_of_relinks above above' n n' hn (fun q hq => hplain q (List.mem_append_left _ hq))
        fun q hq => hplain' q (List.mem_append_left _ hq)
    · exact .nil

end

/-! ### What an import binds -/

section Binding

variable (hplain : d.Plain) (hp : p ∈ d.places) (hn : n ∈ p.node.children) (h : relinks d d' new n n' = true)

include hplain hp hn h

theorem nameOf_of_relinks : d.nameOf n = d'.nameOf n' := by
  unfold nameOf
  rw [← (relinks_cases h).2.1]
  split
  · rename_i hkind
    have hkind := beq_iff_eq.mp hkind
    have hbare := hplain.words _ (child_mem_places hp hn (by rw [hkind]; rfl)) hkind
    have huntouched : touches new n = false := by
      obtain ⟨role, kind, start, stop, children⟩ := n
      obtain rfl : kind = .identifier := hkind
      obtain rfl : children = [] := hbare
      rfl
    rw [wording_of_untouched h huntouched]
  · rfl

theorem specifierNames_of_relinks : d.specifierNames n = d'.specifierNames n' := by
  unfold specifierNames
  rw [← (relinks_cases h).2.1]
  split
  · rename_i hkind
    have hkind := beq_iff_eq.mp hkind
    have hother : n.kind ≠ .string := by
      rw [hkind]
      decide
    have hspecifier : p.child n ∈ d.places := child_mem_places hp hn (by rw [hkind]; rfl)
    refine flatMap_of_forall₂ (forall₂_or (field?_of_relinks h hother .asName) (field?_of_relinks h hother .name))
      fun c hc c' hcc => nameOf_of_relinks hplain hspecifier ?_ hcc
    rcases Option.or_eq_some_iff.mp (Option.mem_toList.mp hc) with hfound | ⟨-, hfound⟩
    · exact List.mem_of_find?_eq_some hfound
    · exact List.mem_of_find?_eq_some hfound
  · rfl

omit hplain in
theorem parts_of_relinks {kind : Kind} (hkind : n.kind = kind) (hother : kind ≠ .string)
    (hnamed : kind.isNamed = true) : p.child n ∈ d.places ∧
      List.Forall₂ (fun n n' => relinks d d' new n n' = true) n.children n'.children := by
  subst hkind
  exact ⟨child_mem_places hp hn hnamed, ((relinks_cases h).2.2.2 hother).2⟩

theorem clauseNames_of_relinks : d.clauseNames n = d'.clauseNames n' := by
  unfold clauseNames
  rw [← (relinks_cases h).2.1]
  split
  · exact nameOf_of_relinks hplain hp hn h
  · rename_i hkind
    obtain ⟨hplace, hchildren⟩ := parts_of_relinks hp hn h hkind (by decide) rfl
    exact flatMap_of_forall₂ hchildren fun c hc c' hcc => nameOf_of_relinks hplain hplace hc hcc
  · rename_i hkind
    obtain ⟨hplace, hchildren⟩ := parts_of_relinks hp hn h hkind (by decide) rfl
    exact flatMap_of_forall₂ hchildren fun c hc c' hcc => specifierNames_of_relinks hplain hplace hc hcc
  · rfl

theorem partNames_of_relinks : d.partNames n = d'.partNames n' := by
  unfold partNames
  rw [← (relinks_cases h).2.1]
  split
  · rename_i hkind
    obtain ⟨hplace, hchildren⟩ := parts_of_relinks hp hn h hkind (by decide) rfl
    exact flatMap_of_forall₂ hchildren fun c hc c' hcc => clauseNames_of_relinks hplain hplace hc hcc
  · rename_i hkind
    obtain ⟨hplace, hchildren⟩ := parts_of_relinks hp hn h hkind (by decide) rfl
    exact flatMap_of_forall₂ hchildren fun c hc c' hcc => nameOf_of_relinks hplain hplace hc hcc
  · rfl

end Binding

/-- New literals leave the names that imports bind. -/
theorem importNames_of_relinked {cwd : PathName} {file : String} (h : Relinked cwd file d d') (hplain : d.Plain) :
    d'.importNames = d.importNames := by
  have himports := imports_of_relinks [] [] d.root d'.root h.same hplain.strings h.plain
  unfold importNames entries
  rw [List.flatMap_map, List.flatMap_map]
  refine (flatMap_of_forall₂ himports fun p hp p' hpp => ?_).symm
  obtain ⟨hplace, hkind⟩ := mem_importStatements.mp hp
  have hother : p.node.kind ≠ .string := by
    rw [hkind]
    decide
  exact flatMap_of_forall₂ ((relinks_cases hpp).2.2.2 hother).2 fun n hn n' hnn =>
    partNames_of_relinks hplain hplace hn hnn

end Document

/-! ## The header -/

/-- The names that the header brings. -/
def Import.headerNames (emitSetup : Bool) : List String :=
  ["render", "screen"] ++ if emitSetup then ["configure"] else []

namespace Document

/-- The imports that stay: neither from the old library nor within one that is. -/
def keptImports (d : Document) : List Place :=
  d.importStatements.filter fun p =>
    ¬ ∃ q ∈ d.legacyImports, q.node.start ≤ p.node.start ∧ p.node.stop ≤ q.node.stop

def keptEntries (d : Document) : List Import.Entry := d.keptImports.map d.entryAt

/-- The names that are bound by imports that stay. -/
def keptNames (d : Document) : List String := d.keptEntries.flatMap (·.names)

/-- In the new text the imports are read that the header has on its own, and then those that stay. The line
of the setup that is a call is not read as an import. -/
structure ReadsHeader (d : Document) (attr : Text) (emitSetup : Bool) : Prop where
  text : ∀ root ∈ (d.read (d.modernized attr emitSetup)).toOption,
    (d.reread (d.modernized attr emitSetup) root).entries =
      entriesIn d.read (Import.lines attr emitSetup) ++ d.keptEntries
  call : emitSetup = true → entriesIn d.read (Import.lines attr true) = entriesIn d.read Import.importLines

instance (d : Document) (attr : Text) (emitSetup : Bool) : Decidable (d.ReadsHeader attr emitSetup) :=
  decidable_of_iff
    ((∀ root ∈ (d.read (d.modernized attr emitSetup)).toOption,
        (d.reread (d.modernized attr emitSetup) root).entries =
          entriesIn d.read (Import.lines attr emitSetup) ++ d.keptEntries) ∧
      (emitSetup = true → entriesIn d.read (Import.lines attr true) = entriesIn d.read Import.importLines))
    ⟨fun h => ⟨h.1, h.2⟩, fun h => ⟨h.text, h.call⟩⟩

variable {d : Document} {attr : Text} {emitSetup : Bool}

theorem keptNames_sublist : d.keptNames.Sublist d.importNames := by
  unfold keptNames keptEntries importNames entries
  rw [List.flatMap_map, List.flatMap_map]
  exact List.filter_sublist.flatMap _

end Document

theorem Text.whole_of_encode {t : Text} (h : (Quoted.encode t).Whole) : t.Whole := by
  intro g hg
  cases g with
  | char c => rfl
  | lone n =>
    refine h (.lone n) (List.mem_cons_of_mem _ (List.mem_append_left _ ?_))
    exact List.mem_flatMap.mpr ⟨.lone n, hg, List.mem_singleton_self _⟩

namespace Import

variable {d : Document} {attr : Text} {emitSetup b : Bool} {cwd : PathName} {file : Option String}
  {s s' : Session}

theorem names_renderLine (dialect : Script.Dialect) :
    (Document.entriesIn (Script.parse dialect) [renderLine]).flatMap (·.names) = ["render", "screen"] := by
  cases dialect <;> decide +kernel

theorem names_importLines (dialect : Script.Dialect) :
    (Document.entriesIn (Script.parse dialect) importLines).flatMap (·.names) =
      ["render", "screen", "configure"] := by
  cases dialect <;> decide +kernel

theorem names_header (hd : d.Worded) (hreads : d.ReadsHeader attr emitSetup) :
    (Document.entriesIn d.read (lines attr emitSetup)).flatMap (·.names) = headerNames emitSetup := by
  obtain ⟨dialect, hdialect⟩ := hd.script
  cases emitSetup with
  | false =>
    rw [hdialect]
    exact names_renderLine dialect
  | true =>
    rw [hreads.call rfl, hdialect]
    exact names_importLines dialect

/-! ## The pass -/

/-- A line that was put on top could be written out. -/
theorem whole_of_insertAtTop {text : Text} {b b' : Batch} {u : Unit}
    (h : Records (Document.insertAtTop text) d b u b') : text.Whole := by
  unfold Document.insertAtTop at h
  split at h
  · rename_i hempty
    rw [List.isEmpty_iff.mp hempty]
    exact List.forall_mem_nil _
  · obtain ⟨d', b₁, hget, h⟩ := h.bind made_get
    obtain ⟨written, hwritten, -⟩ := records_recordEdit h
    have hall : (text ++ [Glyph.char '\n']).Whole := Text.eq_ofString hwritten ▸ Text.whole_ofString
    exact hall.of_subset (List.subset_append_left _ _)

theorem whole_of_exchange {legacy : List Handle} {header : List Text} {b b' : Batch} {u : Unit}
    (h : Records (exchange legacy header) d b u b') : ∀ line ∈ header, line.Whole := by
  obtain ⟨u', b₁, -, h⟩ := h.bind (made_stepwise.forM Handle.made_remove legacy)
  intro line hline
  obtain ⟨b₂, b₃, hturn, -⟩ := Records.forM_mem made_insertAtTop h line (List.mem_reverse.mpr hline)
  exact whole_of_insertAtTop hturn

/-- The place of a script matters behind all else only, where its specifiers are made absolute. -/
theorem replace_eq (cwd : PathName) (file : Option String) (attr : Text) (emitSetup : Bool) :
    replace cwd file attr emitSetup = (do
      let b ← replace cwd none attr emitSetup
      absolutizeIn cwd file
      return b) := by
  unfold replace absolutizeIn
  simp only [bind_assoc, pure_bind]

/-- Without a place of the script the imports are exchanged, and nothing else is done. -/
theorem batched_of_replace (h : replace cwd none attr emitSetup s = .ok b s') : ∃ legacy spent,
    findAll (importsFrom legacyModule) s.document = .ok legacy ∧
      Document.batched (exchange legacy (header legacy attr emitSetup)) s.document = .ok ((), spent) s'.document := by
  obtain ⟨legacy, t, hlegacy, h₁⟩ := Leaves.bind_ok h
  obtain ⟨hfound, ht⟩ := Pass.look_ok hlegacy
  obtain ⟨u, t₁, hreport, h₂⟩ := h₁.bind_ok
  obtain ⟨⟨u', spent⟩, t₂, hexchange, h₃⟩ := h₂.bind_ok
  obtain ⟨u'', t₃, hnothing, h₄⟩ := h₃.bind_ok
  have hdocument : t₁.document = s.document := by
    rw [ht] at hreport
    unfold reportMissing at hreport
    split at hreport
    · obtain ⟨-, rfl⟩ := hreport.modify (f := fun s : Session =>
        { s with findings := s.findings ++ [⟨.missingLegacyImport, _, .warning, s.file, none⟩] })
      rfl
    · obtain ⟨-, rfl⟩ := hreport.pure
      rfl
  obtain ⟨d, hbatched, ht₂⟩ := Pass.lift_ok hexchange
  obtain ⟨-, rfl⟩ := h₄.pure
  obtain ⟨-, rfl⟩ := Leaves.pure (show Leaves (pure () : Pass Unit) t₂ (.ok u'') s' from hnothing)
  refine ⟨legacy, spent, hfound, ?_⟩
  rw [ht₂, ← hdocument]
  exact hbatched

/-- Without a place of the script the text is exchanged for the new one, or nothing is done. -/
theorem replace_none_ok (closed : s.document.batch = none) (hd : s.document.Worded) (hplaced : s.document.Placed)
    (h : replace cwd none attr emitSetup s = .ok b s') :
    s.document.legacyImports = [] ∧ s'.document = s.document ∨ s.document.legacyImports ≠ [] ∧
      ∃ root, s.document.read (s.document.modernized attr emitSetup) = .ok root ∧
        s'.document = s.document.reread (s.document.modernized attr emitSetup) root := by
  obtain ⟨legacy, spent, hfound, hbatched⟩ := batched_of_replace h
  have hnamed := importsNamed_of_findAll hd.legible hfound
  obtain rfl : legacy = s.document.legacyImports.map s.document.handle :=
    Except.ok.inj (hfound.symm.trans (hplaced.findAll_importsOf hd.legible hnamed legacyModule))
  obtain ⟨batch, hrecords, hend⟩ := Document.batched_ok (made_exchange _ _) closed hbatched
  by_cases hlegacy : s.document.legacyImports = []
  · rw [hlegacy] at hrecords
    obtain ⟨-, hnone⟩ := hrecords.pure
    rw [hnone] at hend
    exact .inl ⟨hlegacy, hend.elim (·.2) fun hsome => absurd rfl hsome.1⟩
  · have hattr : emitSetup = true → attr.Whole := by
      rintro rfl
      have hlines := whole_of_exchange hrecords
      unfold header at hlines
      rw [if_neg (by simpa using hlegacy), if_pos rfl] at hlines
      have hline := hlines _ (List.mem_cons_of_mem _ (List.mem_cons_of_mem _ (List.mem_cons_of_mem _
        List.mem_cons_self)))
      exact Text.whole_of_encode (hline.of_subset (List.subset_append_of_subset_left _
        (List.subset_append_right _ _)))
    have hswap := records_exchange hplaced hlegacy hattr
    obtain ⟨-, hsame⟩ := EStateM.Result.ok.inj (hrecords.symm.trans hswap)
    obtain rfl : batch = swap s.document attr emitSetup := Option.some.inj (congrArg Document.batch hsame)
    rw [outcome_swap hplaced] at hend
    exact .inr ⟨hlegacy, (hend.resolve_left fun hnone => edits_swap_ne hnone.1).2⟩

section Names

variable {path : Option String} {source : String} {origin : Option String} {findings : List Diagnostic}
  (hd : Document.ofString path source = .ok d) (hplaced : d.Placed)
  (hreads : d.legacyImports ≠ [] → d.ReadsHeader attr emitSetup)

include hd hplaced hreads

/-- Where there is something to exchange, the names of the header come in front of those that stay. -/
theorem importNames_of_replace (hrun : replace cwd none attr emitSetup ⟨d, origin, findings⟩ = .ok b s) :
    s.document.importNames =
      if d.legacyImports = [] then d.importNames else headerNames emitSetup ++ d.keptNames := by
  have hworded := Document.worded_ofString hd
  rcases replace_none_ok (Document.sound_of_ofBytes hd).2 hworded hplaced hrun with
    ⟨hlegacy, hafter⟩ | ⟨hlegacy, root, hread, hafter⟩
  · rw [hafter]
    exact (if_pos hlegacy).symm
  · have hreads := hreads hlegacy
    have hentries := hreads.text root (by rw [hread]; rfl)
    rw [← hafter] at hentries
    unfold Document.importNames
    rw [hentries, List.flatMap_append, names_header hworded hreads]
    exact (if_neg hlegacy).symm

/-- The imports bind no name twice in the end just where none of the names that the header brings is bound
by an import that stays, or there is nothing to exchange. -/
theorem replace_distinct (hrun : replace cwd file attr emitSetup ⟨d, origin, findings⟩ = .ok b s')
    (hrelinked : ∀ place ∈ file, ∀ s₁, replace cwd none attr emitSetup ⟨d, origin, findings⟩ = .ok b s₁ →
      s₁.document.Plain ∧ Document.Relinked cwd place s₁.document s'.document)
    (hdistinct : d.importNames.Nodup) :
    s'.document.importNames.Nodup ↔
      d.legacyImports = [] ∨ ∀ name ∈ headerNames emitSetup, name ∉ d.keptNames := by
  rw [replace_eq] at hrun
  obtain ⟨b', s₁, hnone, hplace⟩ := Leaves.bind_ok hrun
  obtain ⟨u, s₂, habsolutize, hend⟩ := hplace.bind_ok
  obtain ⟨hb, rfl⟩ := hend.pure
  cases hb
  have hnames : s'.document.importNames = s₁.document.importNames := by
    cases file with
    | none =>
      obtain ⟨-, rfl⟩ := Leaves.pure (show Leaves (pure () : Pass Unit) s₁ (.ok u) s' from habsolutize)
      rfl
    | some place =>
      obtain ⟨hplain, hsame⟩ := hrelinked place rfl s₁ hnone
      exact Document.importNames_of_relinked hsame hplain
  rw [hnames, importNames_of_replace hd hplaced hreads hnone]
  split
  · rename_i hlegacy
    exact iff_of_true hdistinct (.inl hlegacy)
  · rename_i hlegacy
    have hheader : (headerNames emitSetup).Nodup := by
      cases emitSetup <;> decide
    rw [List.nodup_append, or_iff_right hlegacy]
    constructor
    · rintro ⟨-, -, hapart⟩ name hname hkept
      exact hapart name hname name hkept rfl
    · intro hapart
      refine ⟨hheader, hdistinct.sublist Document.keptNames_sublist, ?_⟩
      rintro name hname _ hkept rfl
      exact hapart name hname hkept

end Names

/-- An import of the old library, and one of a module beside the script. -/
def besideScript : String := "import 'enzyme';import a from './b'"

theorem replace_distinct_beside : ∃ (d : Document) (s' : Session), Document.ofString none besideScript = .ok d ∧
    d.Placed ∧ d.ReadsHeader ("id" : String) false ∧
      replace ⟨1, ["w"]⟩ (some "t.js") ("id" : String) false ⟨d, none, []⟩ = .ok true s' ∧
      (∀ place ∈ some "t.js", ∀ s₁, replace ⟨1, ["w"]⟩ none ("id" : String) false ⟨d, none, []⟩ = .ok true s₁ →
        s₁.document.Plain ∧ Document.Relinked ⟨1, ["w"]⟩ place s₁.document s'.document) ∧
      d.importNames.Nodup ∧ d.legacyImports ≠ [] ∧ (∀ name ∈ headerNames false, name ∉ d.keptNames) ∧
      s'.document.importNames.Nodup := by
  have hobserve : (do
      let b ← replace ⟨1, ["w"]⟩ none ("id" : String) false
      let s₁ ← get
      absolutizeIn ⟨1, ["w"]⟩ (some "t.js")
      return (b, s₁) : Pass (Bool × Session)).onScript? besideScript (fun d r s' =>
        (r.1, decide ((d.Placed ∧ d.ReadsHeader ("id" : String) false ∧ d.importNames.Nodup ∧
          d.legacyImports ≠ [] ∧ ∀ name ∈ headerNames false, name ∉ d.keptNames) ∧ r.2.document.Plain),
          Document.isRelinked ⟨1, ["w"]⟩ "t.js" r.2.document s'.document)) = some (true, true, true) := by
    decide +kernel
  obtain ⟨d, ⟨b, s₁⟩, s', hd, hboth, hobserved⟩ := Pass.exists_of_onScript? hobserve
  simp only [Prod.mk.injEq, decide_eq_true_eq] at hobserved
  obtain ⟨rfl, ⟨⟨hplaced, hreads, hdistinct, hlegacy, hapart⟩, hplain⟩, hchecked⟩ := hobserved
  obtain ⟨b', s₂, hnone, h₁⟩ := Leaves.bind_ok hboth
  obtain ⟨s₃, s₄, hget, h₂⟩ := h₁.bind_ok
  obtain ⟨hs₃, hs₄⟩ := hget.get
  obtain ⟨u, s₅, habsolutize, hend⟩ := h₂.bind_ok
  obtain ⟨hpair, rfl⟩ := hend.pure
  cases hs₃
  cases hpair
  rw [hs₄] at habsolutize
  have hrun : replace ⟨1, ["w"]⟩ (some "t.js") ("id" : String) false ⟨d, none, []⟩ = .ok true s' := by
    rw [replace_eq]
    exact (Leaves.of_bind_ok hnone).trans (Leaves.of_bind_ok habsolutize)
  have hrelinked : ∀ place ∈ some "t.js", ∀ s₁,
      replace ⟨1, ["w"]⟩ none ("id" : String) false ⟨d, none, []⟩ = .ok true s₁ →
        s₁.document.Plain ∧ Document.Relinked ⟨1, ["w"]⟩ place s₁.document s'.document := by
    rintro place hplace t ht
    cases hplace
    cases hnone.symm.trans ht
    exact ⟨hplain, Document.relinked_of_isRelinked hchecked⟩
  exact ⟨d, s', hd, hplaced, hreads, hrun, hrelinked, hdistinct, hlegacy, hapart,
    (replace_distinct hd hplaced (fun _ => hreads) hrun hrelinked hdistinct).mpr (.inr hapart)⟩

/-- One name of the new library is imported already. -/
def renderedScript : String :=
  "import \x7b render \x7d from '@testing-library/react';\nimport \x7b mount \x7d from 'enzyme';\n"

/-- The header binds a name a second time. -/
theorem replace_binds_twice : ∃ (d : Document) (s' : Session), Document.ofString none renderedScript = .ok d ∧
    d.importNames = ["render", "mount"] ∧ replace .root none ("id" : String) false ⟨d, none, []⟩ = .ok true s' ∧
      s'.document.importNames = ["render", "screen", "render"] ∧ ¬ s'.document.importNames.Nodup := by
  have hrun : (replace .root none ("id" : String) false).onScript? renderedScript (fun d b s' =>
      (b, d.importNames, s'.document.importNames)) =
        some (true, ["render", "mount"], ["render", "screen", "render"]) := by decide +kernel
  obtain ⟨d, b, s', hd, hrun, hobserved⟩ := Pass.exists_of_onScript? hrun
  simp only [Prod.mk.injEq] at hobserved
  obtain ⟨rfl, hbefore, hafter⟩ := hobserved
  exact ⟨d, s', hd, hbefore, hrun, hafter, by rw [hafter]; decide⟩

end Import

end TestMigration
