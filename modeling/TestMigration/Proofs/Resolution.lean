import TestMigration.Proofs.Undeclared
import TestMigration.Proofs.Untouched

/-! Repeated resolution. The resolver finds nothing in a script whose variables and assignments hold no
result of the function, neither under the function's own name nor in a pattern: it reports that and
leaves the script alone. A second run does so on what a first one left if and only if it has left such a
script, short of patterns that give way to the very text in which they stand. -/

namespace TestMigration

open Script (Node Kind Field Place)

namespace Wrapper

/-- Neither strategy of the resolver has anything to give up in the document. -/
structure Resolved (function : String) (d : Document) : Prop where
  declared : ∀ p ∈ d.declarations, ∀ b ∈ p.binding?,
    d.holdsResult function b.1 b.2 = false ∧ d.givesWay function b.1 b.2 = false
  assigned : ∀ p ∈ d.assignments, ∀ s ∈ p.sides?,
    d.holdsResult function s.1 s.2 = false ∧ d.isAssigned function s.1 s.2 = false

instance (function : String) (d : Document) : Decidable (Resolved function d) :=
  decidable_of_iff
    ((∀ p ∈ d.declarations, ∀ b ∈ p.binding?,
        d.holdsResult function b.1 b.2 = false ∧ d.givesWay function b.1 b.2 = false) ∧
      ∀ p ∈ d.assignments, ∀ s ∈ p.sides?,
        d.holdsResult function s.1 s.2 = false ∧ d.isAssigned function s.1 s.2 = false)
    ⟨fun h => ⟨h.1, h.2⟩, fun h => ⟨h.declared, h.assigned⟩⟩

/-- A run commits edits and yields no name, and what the edits come to is the text that it began with. -/
def Restores (function : String) (s : Session) : Prop :=
  ∃ s', resolve (some function) s = .ok [] s' ∧ s.document.generation < s'.document.generation ∧
    s'.document.source = s.document.source

/-! ## Runs that find nothing -/

section

variable {α β : Type} {d : Document} {as : List α}

theorem still_mapM_of_mem {f : α → Editing β} {b : β} (h : ∀ a ∈ as, f a d = .ok b d) :
    as.mapM f d = .ok (as.map fun _ => b) d := by
  induction as with
  | nil => rfl
  | cons a as ih =>
    obtain ⟨ha, has⟩ := List.forall_mem_cons.mp h
    rw [List.mapM_cons, Document.bind_apply, ha]
    dsimp only
    rw [Document.bind_apply, ih has]
    rfl

theorem still_forM_of_mem {f : α → Editing PUnit} (h : ∀ a ∈ as, f a d = .ok ⟨⟩ d) :
    as.forM f d = .ok ⟨⟩ d := by
  induction as with
  | nil => rfl
  | cons a as ih =>
    obtain ⟨ha, has⟩ := List.forall_mem_cons.mp h
    change (f a >>= fun _ => as.forM f) d = _
    rw [Document.bind_apply, ha]
    exact ih has

end

section

variable {d : Document} {test named : Handle → Handle → Looking Bool} {holds : Place → Place → Bool}
  {function : String} {names : List String}

theorem still_collapseDeclarations (hd : d.Legible) (hreflects : d.Reflects test holds)
    (hnone : ∀ p ∈ d.declarations, ∀ b ∈ p.binding?, holds b.1 b.2 = false) :
    collapseDeclarations test named d = .ok [] d := by
  refine still_look_bind.mpr ⟨_, Document.findAll_declarations hd, ?_⟩
  have heach : ∀ a ∈ d.declarations.map d.handle, collapseDeclaration test named a d = .ok [] d := by
    intro a ha
    obtain ⟨p, hp, rfl⟩ := List.mem_map.mp ha
    refine still_look_bind.mpr ⟨_, binding?_handle, ?_⟩
    cases hb : p.binding? with
    | none => rfl
    | some b =>
      have hwithin := (Document.within_found hp).binding? hb
      refine still_look_bind.mpr ⟨_, hreflects b.1 b.2 hwithin.1 hwithin.2, ?_⟩
      rw [hnone p hp b hb]
      rfl
  rw [Document.bind_apply, still_mapM_of_mem heach]
  change EStateM.Result.ok _ d = _
  congr 1
  simp

theorem still_collapseAssignments (hd : d.Legible) (hreflects : d.Reflects test holds)
    (hnone : ∀ p ∈ d.assignments, ∀ s ∈ p.sides?, holds s.1 s.2 = false) :
    collapseAssignments test d = .ok [] d := by
  refine still_look_bind.mpr ⟨_, Document.findAll_assignments hd, ?_⟩
  have heach : ∀ a ∈ d.assignments.map d.handle, collapseAssignment test a d = .ok [] d := by
    intro a ha
    obtain ⟨p, hp, rfl⟩ := List.mem_map.mp ha
    refine still_look_bind.mpr ⟨_, Handle.field?_handle _,
      still_look_bind.mpr ⟨_, Handle.field?_handle _, ?_⟩⟩
    have hwithin := Document.within_found hp
    cases hl : p.field? .left with
    | none => rfl
    | some left =>
      cases hr : p.field? .right with
      | none => rfl
      | some right =>
        have hsides : p.sides? = some (left, right) := by
          unfold Place.sides?
          rw [hl, hr]
        refine still_look_bind.mpr ⟨_, hreflects left right (hwithin.field? hl) (hwithin.field? hr), ?_⟩
        rw [hnone p hp (left, right) hsides]
        rfl
  rw [Document.bind_apply, still_mapM_of_mem heach]
  change EStateM.Result.ok _ d = _
  congr 1
  simp

theorem still_removeUninitialised (hd : d.Legible) : removeUninitialised [] d = .ok () d := by
  refine still_look_bind.mpr ⟨_, Document.findAll_declarations hd, still_forM_of_mem fun a ha => ?_⟩
  obtain ⟨p, hp, rfl⟩ := List.mem_map.mp ha
  refine still_look_bind.mpr ⟨_, declarators_handle, still_look_bind.mpr ⟨[], ?_, rfl⟩⟩
  refine (filterM_eq (g := fun _ => false) fun a ha => ?_).trans (by rw [List.filter_false])
  obtain ⟨q, hq, rfl⟩ := List.mem_map.mp ha
  refine (isUninitialised_handle hd ((Document.within_found hp).declarator hq) []).trans ?_
  unfold Document.isUninitialised
  simp

/-- A block that records nothing ends where it began. -/
theorem batched_of_still {body : Editing (List String)} (hb : Made body) (closed : d.batch = none)
    (h : body d.opened = .ok names d.opened) :
    Document.batched body d = .ok (names, { Batch.open' d.generation with committed := true }) d :=
  (still_batched hb closed).mpr ⟨h, rfl⟩

theorem Resolved.resultsOf (h : Resolved function d) (closed : d.batch = none) (hd : d.Legible) :
    resultsOf function d = .ok [] d := by
  -- in its block a strategy sees the same tree
  have hopened : d.opened.Legible := hd
  have hdeclared : collapseDeclarations (holdsResult function) (fun _ _ => return true) d.opened =
      .ok [] d.opened :=
    still_collapseDeclarations hopened (reflects_holdsResult hopened function)
      fun p hp b hb => (h.declared p hp b hb).1
  have hassigned : assignedResults function d.opened = .ok [] d.opened := by
    have hfound := still_collapseAssignments hopened (reflects_holdsResult hopened function)
      fun p hp s hs => (h.assigned p hp s hs).1
    unfold assignedResults
    rw [Document.bind_apply, hfound]
    dsimp only
    rw [Document.bind_apply, still_removeUninitialised hopened]
    rfl
  rw [resultsOf_blocks, Document.bind_apply, batched_of_still (made_collapseDeclarations
    (plain_holdsResult function) fun _ _ => plain_pure _) closed hdeclared]
  dsimp only
  rw [Document.bind_apply, batched_of_still (made_assignedResults function) closed hassigned]
  rfl

theorem Resolved.namesakesOf (h : Resolved function d) (closed : d.batch = none) (hd : d.Legible) :
    namesakesOf function d = .ok [] d := by
  have hopened : d.opened.Legible := hd
  have hdeclared : collapseDeclarations (givesWay function) (isNamesake function) d.opened =
      .ok [] d.opened :=
    still_collapseDeclarations hopened (reflects_givesWay hopened function)
      fun p hp b hb => (h.declared p hp b hb).2
  have hassigned : assignedNamesakes function d.opened = .ok [] d.opened := by
    have hfound := still_collapseAssignments hopened (reflects_isAssigned hopened function)
      fun p hp s hs => (h.assigned p hp s hs).2
    unfold assignedNamesakes
    rw [Document.bind_apply, hfound]
    rfl
  rw [namesakesOf_blocks, Document.bind_apply, batched_of_still (made_collapseDeclarations
    (plain_givesWay function) (plain_isNamesake function)) closed hdeclared]
  dsimp only
  rw [Document.bind_apply, batched_of_still (made_assignedNamesakes function) closed hassigned]
  rfl

/-- Where nothing is left to give up, the resolver reports that and does nothing else. -/
theorem Resolved.tells {s : Session} (h : Resolved function s.document) (closed : s.document.batch = none)
    (hd : s.document.Legible) : Pass.Tells (resolve (some function)) s []
      [⟨.noWrapperBindings, s!"No wrapper bindings found for render function '{function}'", .warning,
        s.file, none⟩] := by
  refine (Pass.tells_lift (h.resultsOf closed hd)).silent_bind ?_
  refine (Pass.tells_lift (h.namesakesOf closed hd)).silent_bind ?_
  exact (Pass.tells_report s _ _).bind_silent (Pass.tells_pure _ _)

/-! ## Runs that change nothing -/

/-- Where a block of declarations records nothing, no declaration passes its test. -/
theorem none_declared (ht : ∀ a b, Plain (test a b)) (hn : ∀ a b, Plain (named a b))
    (closed : d.batch = none) {spent : Batch}
    (h : Document.batched (collapseDeclarations test named) d = .ok (names, spent) d) :
    ∀ declaration name value, ¬ Declares d test declaration name value := by
  intro declaration name value hdeclares
  obtain ⟨hbody, -⟩ := (still_batched (made_collapseDeclarations ht hn) closed).mp h
  obtain ⟨⟨e, he, -⟩, -⟩ := (records_collapseDeclarations ht hn rfl hbody).2 hdeclares
  cases he

/-- Where a block of assignments records nothing, no assignment passes its test. -/
theorem none_assigned {body : Editing (List String)} (hb : Made body) (closed : d.batch = none)
    (hclears : ∀ b names, Records body d (.open' d.generation) names b → d.Clears holds b.edits)
    {spent : Batch} (h : Document.batched body d = .ok (names, spent) d) :
    ∀ p ∈ d.assignments, ∀ s ∈ p.sides?, holds s.1 s.2 = false := by
  intro p hp s hs
  rw [← Bool.not_eq_true]
  intro hholds
  obtain ⟨hbody, -⟩ := (still_batched hb closed).mp h
  obtain ⟨e, he, -⟩ := (hclears _ _ hbody).assignments ⟨hp, hs, hholds⟩
  cases he

theorem none_of_resultsOf (closed : d.batch = none) (hd : d.Legible)
    (h : resultsOf function d = .ok names d) : names = [] ∧
      (∀ p ∈ d.declarations, ∀ b ∈ p.binding?, d.holdsResult function b.1 b.2 = false) ∧
      ∀ p ∈ d.assignments, ∀ s ∈ p.sides?, d.holdsResult function s.1 s.2 = false := by
  have ht := plain_holdsResult function
  have hn : ∀ a b : Handle, Plain (pure true : Looking Bool) := fun _ _ => plain_pure _
  have hmade := made_collapseDeclarations ht hn
  have hrun := h
  rw [resultsOf_blocks] at h
  obtain ⟨⟨declared, spent⟩, hdeclared, h⟩ := (still_bind (made_batched hmade) fun _ =>
    (made_batched (made_assignedResults function)).bind fun _ => made_pure _).mp h
  obtain ⟨⟨assigned, spent'⟩, hassigned, h⟩ :=
    (still_bind (made_batched (made_assignedResults function)) fun _ => made_pure _).mp h
  have hundeclared := none_declared ht hn closed hdeclared
  have hunassigned := none_assigned (made_assignedResults function) closed
    (fun b names hr => (clears_assignedResults hd rfl hr).1) hassigned
  have hreflects := reflects_holdsResult hd function
  have hnone : NoResults function d := ⟨hundeclared, (forall_assignments hd hreflects).mpr hunassigned⟩
  exact ⟨(resultsOf_idle closed hnone hrun).1, (forall_declarations hd hreflects).mp hundeclared,
    hunassigned⟩

theorem none_of_namesakesOf (closed : d.batch = none) (hd : d.Legible)
    (h : namesakesOf function d = .ok names d) :
    (∀ p ∈ d.declarations, ∀ b ∈ p.binding?, d.givesWay function b.1 b.2 = false) ∧
      ∀ p ∈ d.assignments, ∀ s ∈ p.sides?, d.isAssigned function s.1 s.2 = false := by
  have ht := plain_givesWay function
  have hn := plain_isNamesake function
  rw [namesakesOf_blocks] at h
  obtain ⟨⟨declared, spent⟩, hdeclared, h⟩ := (still_bind (made_batched (made_collapseDeclarations ht hn))
    fun _ => (made_batched (made_assignedNamesakes function)).bind fun _ => made_pure _).mp h
  obtain ⟨⟨assigned, spent'⟩, hassigned, -⟩ :=
    (still_bind (made_batched (made_assignedNamesakes function)) fun _ => made_pure _).mp h
  exact ⟨(forall_declarations hd (reflects_givesWay hd function)).mp (none_declared ht hn closed hdeclared),
    none_assigned (made_assignedNamesakes function) closed
      (fun b names hr => (clears_assignedNamesakes hd rfl hr).1) hassigned⟩

/-- A run that leaves the document as it was has found nothing to give up. -/
theorem resolved_of_still {s s' : Session} (closed : s.document.batch = none) (hd : s.document.Legible)
    (h : resolve (some function) s = .ok names s') (hsame : s'.document = s.document) :
    Resolved function s.document := by
  obtain ⟨direct, met, hdirect, hrest⟩ := resolve_ends h
  rw [hsame] at hrest
  have hmet : met = s.document := by
    rcases (made_resultsOf function).stays_or_moves hdirect with heq | hmoves
    · exact heq
    · rcases hrest with ⟨-, heq⟩ | ⟨-, own, hown⟩
      · exact heq.symm
      · rcases (made_namesakesOf function).stays_or_moves hown with heq | hback
        · exact heq.symm
        · exact absurd (hmoves.trans hback) (Document.not_moves _)
  rw [hmet] at hdirect hrest
  obtain ⟨hnone, hdeclared, hassigned⟩ := none_of_resultsOf closed hd hdirect
  rcases hrest with ⟨hsome, -⟩ | ⟨-, own, hown⟩
  · exact absurd hnone hsome
  · obtain ⟨hgiven, hset⟩ := none_of_namesakesOf closed hd hown
    exact ⟨fun p hp b hb => ⟨hdeclared p hp b hb, hgiven p hp b hb⟩,
      fun p hp s hs => ⟨hassigned p hp s hs, hset p hp s hs⟩⟩

/-- The run stays still, or it moves the document on. -/
theorem resolved_or_restores {s s' : Session} (closed : s.document.batch = none)
    (hd : s.document.Legible) (h : resolve (some function) s = .ok [] s')
    (hsource : s'.document.source = s.document.source) :
    Resolved function s.document ∨ Restores function s := by
  obtain ⟨p, hrun⟩ := (programmed_resolve (some function)).run_ok h
  have hafter : p.after s.document = s'.document := Program.after_of_ok hrun
  rcases p.stays_or_moves s.document with hstays | hmoves
  · exact .inl (resolved_of_still closed hd h (hafter ▸ hstays))
  · have hclosed := p.after_of_closed closed
    rw [hafter] at hmoves hclosed
    refine .inr ⟨s', h, ?_, hsource⟩
    unfold Document.Moves at hmoves
    rw [Document.recorded_of_closed hclosed] at hmoves
    simpa using hmoves

end

/-! ## Running twice -/

variable {function : String} {names : List String}

/-- After a run that resolves, another one returns no name and leaves the text alone if and only if
nothing is left to give up, or what is given up then gives the same text. -/
theorem resolve_repeats_iff {path file : Option String} {source : String} {d : Document} {s : Session}
    (hd : Document.ofString path source = .ok d)
    (h : resolve (some function) ⟨d, file, []⟩ = .ok names s) :
    (∃ s', resolve (some function) s = .ok [] s' ∧ s'.document.source = s.document.source) ↔
      Resolved function s.document ∨ Restores function s := by
  have hclosed : d.batch = none := (Document.sound_of_ofBytes hd).2
  have hleaves : s.document.Worded ∧ s.document.batch = none := by
    rcases resolve_works hclosed (Document.worded_ofString hd) h with
      ⟨before, given, applied, hworks⟩ | ⟨-, before, given, applied, hworks⟩
    · exact hworks.leaves
    · exact hworks.leaves
  obtain ⟨hworded, hbatch⟩ := hleaves
  constructor
  · rintro ⟨s', hrun, hsource⟩
    exact resolved_or_restores hbatch hworded.legible hrun hsource
  · rintro (hresolved | ⟨s', hrun, -, hsource⟩)
    · exact ⟨_, hresolved.tells hbatch hworded.legible, rfl⟩
    · exact ⟨s', hrun, hsource⟩

theorem resolve_repeats_result :
    ∃ d s, Document.ofString none "const a=f()" = .ok d ∧
      resolve (some "f") ⟨d, none, []⟩ = .ok ["a"] s ∧ s.document.source = "f();".toUTF8 ∧
      Resolved "f" s.document ∧
      ∃ s', resolve (some "f") s = .ok [] s' ∧ s'.document.source = s.document.source := by
  have hrun : (resolve (some "f")).onScript? "const a=f()"
      (fun _ names s => (names, spelledBy ["f();"] s.document.source, decide (Resolved "f" s.document))) =
        some (["a"], true, true) := by decide +kernel
  obtain ⟨d, names, s, hd, hrun, hobserved⟩ := Pass.exists_of_onScript? hrun
  obtain ⟨rfl, hothers⟩ := Prod.mk.inj hobserved
  obtain ⟨hspelled, hresolved⟩ := Prod.mk.inj hothers
  have hleft := of_decide_eq_true hresolved
  exact ⟨d, s, hd, hrun, eq_of_spelledBy hspelled, hleft, (resolve_repeats_iff hd hrun).mpr (.inl hleft)⟩

/-- The function is itself a variable that holds a call. As long as it has results, they are followed; on
what is left the resolver falls back on the name. -/
theorem resolve_repeats_otherwise :
    ∃ d s s', Document.ofString none "const setup = make();\nconst a = setup();\n" = .ok d ∧
      resolve (some "setup") ⟨d, none, []⟩ = .ok ["a"] s ∧
      s.document.source = "const setup = make();\nsetup();\n".toUTF8 ∧
      resolve (some "setup") s = .ok ["setup"] s' ∧
      s'.document.source = "make();\nsetup();\n".toUTF8 := by
  have hrun : (resolve (some "setup")).onScript? "const setup = make();\nconst a = setup();\n"
      (fun _ names s => (names, spelledBy ["const setup = make();\nsetup();\n"] s.document.source,
        ((resolve (some "setup")).yield? s).map fun left =>
          (left.1, spelledBy ["make();\nsetup();\n"] left.2))) =
        some (["a"], true, some (["setup"], true)) := by decide +kernel
  obtain ⟨d, names, s, hd, hrun, hobserved⟩ := Pass.exists_of_onScript? hrun
  simp only [Prod.mk.injEq, Option.map_eq_some_iff] at hobserved
  obtain ⟨rfl, hspelled, ⟨names', text⟩, hyields, rfl, hspelled'⟩ := hobserved
  obtain ⟨s', hagain, rfl⟩ := Pass.exists_of_yield? hyields
  exact ⟨d, s, s', hd, hrun, eq_of_spelledBy hspelled, hagain, eq_of_spelledBy hspelled'⟩

end Wrapper

end TestMigration
