import TestMigration.Proofs.Rendering
import TestMigration.Proofs.Repetition

/-! Which wrappers a conversion gives up. The render pass finds one name, that of the code around
the first call of the old library; the resolver follows this name alone. In the document that it
meets it gives up every variable that holds a result of the name or, where there is no such
variable, every variable of the name itself. -/

namespace TestMigration

namespace Wrapper

open Pattern (quiet_ofKinds)

variable {d d' : Document} {test named : Handle → Handle → Looking Bool}

/-- In the tree of `d` one variable is declared, not exported, whose name and value pass a test. -/
structure Declares (d : Document) (test : Handle → Handle → Looking Bool)
    (declaration name value : Handle) : Prop where
  listed : ∃ all, findAll declarationKinds d = .ok all ∧ declaration ∈ all
  binds : binding? declaration d = .ok (some (name, value))
  passes : test name value d = .ok true

/-- The edit leaves nothing of a declaration but its value. -/
def Collapses (d : Document) (declaration value : Handle) (e : Edit) : Prop :=
  ∃ text, value.text d = .ok text ∧
    e.Puts declaration.place.node.start declaration.place.node.stop (text ++ ";")

/-- The edits applied are those of declarations that pass the test, and they are those of all such
declarations but the ones inside others. -/
structure GivesUp (d : Document) (test : Handle → Handle → Looking Bool) (applied : List Edit) :
    Prop where
  only : ∀ e ∈ applied, ∃ declaration name value,
    Declares d test declaration name value ∧ Collapses d declaration value e
  each : ∀ {declaration name value}, Declares d test declaration name value →
    (∃ e ∈ applied, Collapses d declaration value e) ∨
      ∃ e ∈ applied, e.start ≤ declaration.place.node.start ∧ declaration.place.node.start < e.stop

/-! ## One declaration -/

theorem records_collapse {declaration value : Handle} {b b' : Batch} {u : Unit}
    (h : Records (collapse declaration value) d b u b') :
    (∃ e ∈ b'.edits, Collapses d declaration value e) ∧
      ∀ e ∈ b'.edits, e ∈ b.edits ∨ Collapses d declaration value e := by
  obtain ⟨text, htext, h⟩ := h.look_bind value.plain_text
  rw [← Text.ofString_append] at h
  obtain ⟨⟨e, he, hputs⟩, honly⟩ := records_replaceText h
  refine ⟨⟨e, he, text, htext, hputs⟩, ?_⟩
  intro e he
  rcases honly e he with hold | hnew
  · exact .inl hold
  · exact .inr ⟨text, htext, hnew⟩

theorem collapseDeclaration_of_passes (ht : ∀ a b, Plain (test a b)) (hn : ∀ a b, Plain (named a b))
    {declaration name value : Handle} {b b' : Batch} {names : List String}
    (binds : binding? declaration d = .ok (some (name, value))) (passes : test name value d = .ok true)
    (h : Records (collapseDeclaration test named declaration) d b names b') :
    (∃ e ∈ b'.edits, Collapses d declaration value e) ∧
      (named name value d = .ok true → ∃ n, name.text d = .ok n ∧ names = [n]) := by
  obtain ⟨found, hfound, h⟩ := h.look_bind (plain_binding? declaration)
  rw [binds] at hfound
  cases hfound
  obtain ⟨holds, hholds, h⟩ := h.look_bind (ht name value)
  rw [passes] at hholds
  cases hholds
  obtain ⟨u, b₁, hcollapse, h⟩ := h.bind (made_collapse declaration value)
  obtain ⟨⟨e, he, hcollapses⟩, -⟩ := records_collapse hcollapse
  obtain ⟨accepted, haccepted, h⟩ := h.look_bind (hn name value)
  cases accepted with
  | true =>
    obtain ⟨n, htext, h⟩ := h.look_bind name.plain_text
    obtain ⟨rfl, rfl⟩ := h.pure
    exact ⟨⟨e, he, hcollapses⟩, fun _ => ⟨n, htext, rfl⟩⟩
  | false =>
    obtain ⟨rfl, rfl⟩ := h.pure
    refine ⟨⟨e, he, hcollapses⟩, ?_⟩
    intro htrue
    rw [haccepted] at htrue
    cases htrue

theorem collapseDeclaration_only (ht : ∀ a b, Plain (test a b)) (hn : ∀ a b, Plain (named a b))
    {declaration : Handle} {b b' : Batch} {names : List String}
    (h : Records (collapseDeclaration test named declaration) d b names b') :
    (names = [] ∧ b' = b) ∨ ∃ name value, binding? declaration d = .ok (some (name, value)) ∧
      test name value d = .ok true ∧
        ∀ e ∈ b'.edits, e ∈ b.edits ∨ Collapses d declaration value e := by
  obtain ⟨found, hfound, h⟩ := h.look_bind (plain_binding? declaration)
  cases found with
  | none => exact .inl h.pure
  | some pair =>
    obtain ⟨name, value⟩ := pair
    obtain ⟨holds, hholds, h⟩ := h.look_bind (ht name value)
    cases holds with
    | false => exact .inl h.pure
    | true =>
      obtain ⟨u, b₁, hcollapse, h⟩ := h.bind (made_collapse declaration value)
      obtain ⟨-, honly⟩ := records_collapse hcollapse
      have hrest : b' = b₁ := by
        obtain ⟨accepted, -, h⟩ := h.look_bind (hn name value)
        cases accepted with
        | true =>
          obtain ⟨n, -, h⟩ := h.look_bind name.plain_text
          exact h.pure.2
        | false => exact h.pure.2
      refine .inr ⟨name, value, hfound, hholds, ?_⟩
      intro e he
      rw [hrest] at he
      exact honly e he

/-! ## All declarations -/

/-- Only declarations that pass the test are collapsed, and all of them; the names that are asked for
are among those that the turns yield. -/
theorem records_collapseDeclarations (ht : ∀ a b, Plain (test a b)) (hn : ∀ a b, Plain (named a b))
    {b b' : Batch} {names : List String} (fresh : b.edits = [])
    (h : Records (collapseDeclarations test named) d b names b') :
    (∀ e ∈ b'.edits, ∃ declaration name value,
      Declares d test declaration name value ∧ Collapses d declaration value e) ∧
      ∀ {declaration name value}, Declares d test declaration name value →
        (∃ e ∈ b'.edits, Collapses d declaration value e) ∧
          (named name value d = .ok true → ∃ n, name.text d = .ok n ∧ n ∈ names) := by
  obtain ⟨all, hall, h⟩ := h.look_bind (plain_findAll (quiet_ofKinds _))
  have hmade := made_collapseDeclaration ht hn
  obtain ⟨lists, b₁, hturns, h⟩ := h.bind (made_stepwise.mapM hmade all)
  obtain ⟨rfl, rfl⟩ := h.pure
  constructor
  · refine (hturns.mapM_keeps hmade (Q := fun _ => True) (I := fun b => ∀ e ∈ b.edits,
      ∃ declaration name value, Declares d test declaration name value ∧
        Collapses d declaration value e) ?_ ?_).1
    · intro declaration hmem b₁ c b₂ hb₁ hrun
      refine ⟨?_, trivial⟩
      rcases collapseDeclaration_only ht hn hrun with ⟨-, rfl⟩ | ⟨name, value, binds, passes, hnew⟩
      · exact hb₁
      · intro e he
        rcases hnew e he with hold | hcollapses
        · exact hb₁ e hold
        · exact ⟨declaration, name, value, ⟨⟨all, hall, hmem⟩, binds, passes⟩, hcollapses⟩
    · intro e he
      rw [fresh] at he
      cases he
  · intro declaration name value hdeclares
    obtain ⟨all', hall', hmem⟩ := hdeclares.listed
    rw [hall] at hall'
    cases hall'
    obtain ⟨b₁, c, b₂, hrun, hc, hcontinues⟩ := hturns.mapM_mem hmade declaration hmem
    obtain ⟨⟨e, he, hcollapses⟩, hnamed⟩ :=
      collapseDeclaration_of_passes ht hn hdeclares.binds hdeclares.passes hrun
    refine ⟨⟨e, hcontinues.mem he, hcollapses⟩, ?_⟩
    intro haccepts
    obtain ⟨n, htext, rfl⟩ := hnamed haccepts
    exact ⟨n, htext, List.mem_flatten.mpr ⟨[n], hc, List.mem_singleton.mpr rfl⟩⟩

/-- A block that collapses declarations: the text is that with their edits applied, and the names
that are asked for are among those that it yields. -/
theorem collapseDeclarations_gives_up (ht : ∀ a b, Plain (test a b)) (hn : ∀ a b, Plain (named a b))
    (closed : d.batch = none) {names : List String} {spent : Batch}
    (h : Document.batched (collapseDeclarations test named) d = .ok (names, spent) d') :
    (∃ applied, d'.source = Edit.splice d.source 0 applied ∧ GivesUp d test applied) ∧
      ∀ {declaration name value}, Declares d test declaration name value →
        named name value d = .ok true → ∃ n, name.text d = .ok n ∧ n ∈ names := by
  obtain ⟨b, hrecords, hsource, -, -, -⟩ :=
    batched_records (made_collapseDeclarations ht hn) closed h
  obtain ⟨honly, heach⟩ := records_collapseDeclarations ht hn rfl hrecords
  refine ⟨⟨b.settled.1, hsource, ?_, ?_⟩, fun hdeclares => (heach hdeclares).2⟩
  · intro e he
    exact honly e (Batch.mem_of_applied he)
  · intro declaration name value hdeclares
    obtain ⟨⟨e, he, text, htext, hputs⟩, -⟩ := heach hdeclares
    rcases Batch.applied_or_inside he hputs.1 with happlied | hinside
    · exact .inl ⟨e, happlied, text, htext, hputs⟩
    · exact .inr hinside

/-! ## Nothing to collapse -/

/-- No variable and no assignment of `d` holds what a call of the function returns. -/
structure NoResults (function : String) (d : Document) : Prop where
  declared : ∀ declaration name value, ¬ Declares d (holdsResult function) declaration name value
  assigned : ∀ all, findAll (.ofKind .assignmentExpression) d = .ok all → ∀ a ∈ all,
    ∀ left right, a.field? .left d = .ok (some left) → a.field? .right d = .ok (some right) →
      holdsResult function left right d ≠ .ok true

theorem collapseDeclarations_idle (ht : ∀ a b, Plain (test a b)) (hn : ∀ a b, Plain (named a b))
    (none : ∀ declaration name value, ¬ Declares d test declaration name value) {b b' : Batch}
    {names : List String} (h : Records (collapseDeclarations test named) d b names b') :
    names = [] ∧ b' = b := by
  obtain ⟨all, hall, h⟩ := h.look_bind (plain_findAll (quiet_ofKinds _))
  have hmade := made_collapseDeclaration ht hn
  obtain ⟨lists, b₁, hturns, h⟩ := h.bind (made_stepwise.mapM hmade all)
  obtain ⟨rfl, rfl⟩ := h.pure
  obtain ⟨hb, hlists⟩ := hturns.mapM_keeps hmade (I := (· = b)) (Q := (· = [])) (by
    intro declaration hmem b₁ c b₂ hb hrun
    rcases collapseDeclaration_only ht hn hrun with ⟨hc, hsame⟩ | ⟨name, value, binds, passes, -⟩
    · exact ⟨hsame.trans hb, hc⟩
    · exact absurd ⟨⟨all, hall, hmem⟩, binds, passes⟩ (none declaration name value)) rfl
  exact ⟨List.flatten_eq_nil_iff.mpr hlists, hb⟩

theorem collapseAssignments_idle (ht : ∀ a b, Plain (test a b))
    (none : ∀ all, findAll (.ofKind .assignmentExpression) d = .ok all → ∀ a ∈ all,
      ∀ left right, a.field? .left d = .ok (some left) → a.field? .right d = .ok (some right) →
        test left right d ≠ .ok true) {b b' : Batch} {names : List String}
    (h : Records (collapseAssignments test) d b names b') : names = [] ∧ b' = b := by
  obtain ⟨all, hall, h⟩ := h.look_bind (plain_findAll (quiet_ofKinds _))
  have hmade := made_collapseAssignment ht
  obtain ⟨lists, b₁, hturns, h⟩ := h.bind (made_stepwise.mapM hmade all)
  obtain ⟨rfl, rfl⟩ := h.pure
  obtain ⟨hb, hlists⟩ := hturns.mapM_keeps hmade (I := (· = b)) (Q := (· = [])) (by
    intro a hmem b₁ c b₂ hb hrun
    obtain ⟨left, hleft, hrun⟩ := hrun.look_bind (a.plain_field? _)
    obtain ⟨right, hright, hrun⟩ := hrun.look_bind (a.plain_field? _)
    split at hrun
    · obtain ⟨holds, hholds, hrun⟩ := hrun.look_bind (ht _ _)
      cases holds with
      | true => exact absurd hholds (none all hall a hmem _ _ hleft hright)
      | false =>
        obtain ⟨hc, hsame⟩ := hrun.pure
        exact ⟨hsame.trans hb, hc⟩
    · obtain ⟨hc, hsame⟩ := hrun.pure
      exact ⟨hsame.trans hb, hc⟩) rfl
  exact ⟨List.flatten_eq_nil_iff.mpr hlists, hb⟩

theorem filterM_of_false {f : Handle → Looking Bool} (hf : ∀ h x, f h d = .ok x → x = false)
    {hs kept : List Handle} (h : hs.filterM f d = .ok kept) : kept = [] := by
  have hloop : ∀ hs kept acc, List.filterAuxM f hs acc d = .ok kept → kept = acc := by
    intro hs
    induction hs with
    | nil =>
      intro kept acc h
      cases h
      rfl
    | cons first rest ih =>
      intro kept acc h
      obtain ⟨x, hx, h⟩ := looks_bind h
      rw [hf first x hx] at h
      exact ih kept acc h
  obtain ⟨kept', hkept, h⟩ := looks_bind h
  cases h
  rw [hloop hs kept' [] hkept]
  rfl

theorem isUninitialised_nil {declarator : Handle} {x : Bool}
    (h : isUninitialised [] declarator d = .ok x) : x = false := by
  obtain ⟨value, -, h⟩ := looks_bind h
  cases value with
  | some value =>
    cases h
    rfl
  | none =>
    obtain ⟨name, -, h⟩ := looks_bind h
    cases name with
    | none =>
      cases h
      rfl
    | some name =>
      obtain ⟨text, -, h⟩ := looks_bind h
      cases h
      rfl

theorem removeUninitialised_nil {b b' : Batch} {u : Unit}
    (h : Records (removeUninitialised []) d b u b') : b' = b := by
  obtain ⟨all, -, h⟩ := h.look_bind (plain_findAll (quiet_ofKinds _))
  refine h.forM_keeps (made_removeFrom []) (I := (· = b)) ?_ rfl
  intro declaration _ b₁ u b₂ hb hrun
  obtain ⟨declared, -, hrun⟩ := hrun.look_bind (plain_declarators declaration)
  obtain ⟨doomed, hdoomed, hrun⟩ :=
    hrun.look_bind (plain_stepwise.filterM (plain_isUninitialised []) declared)
  obtain rfl := filterM_of_false (fun h x hx => isUninitialised_nil hx) hdoomed
  exact hrun.pure.2.trans hb

/-! ## The resolver -/

/-- A step of the resolver: the declarations of `d` that pass the test are given up, and the names
that are asked for are among `wrappers`. -/
structure Resolves (d : Document) (test named : Handle → Handle → Looking Bool)
    (wrappers : List String) : Prop where
  commits : ∃ names spent d' applied,
    Document.batched (collapseDeclarations test named) d = .ok (names, spent) d' ∧
      d'.source = Edit.splice d.source 0 applied ∧ GivesUp d test applied
  names : ∀ {declaration name value}, Declares d test declaration name value →
    named name value d = .ok true → ∃ n, name.text d = .ok n ∧ n ∈ wrappers

theorem resolves_of_batched (ht : ∀ a b, Plain (test a b)) (hn : ∀ a b, Plain (named a b))
    (closed : d.batch = none) {names : List String} {spent : Batch}
    (h : Document.batched (collapseDeclarations test named) d = .ok (names, spent) d') :
    Resolves d test named names := by
  obtain ⟨⟨applied, hsource, hgives⟩, hmem⟩ := collapseDeclarations_gives_up ht hn closed h
  exact ⟨⟨names, spent, d', applied, h, hsource, hgives⟩, hmem⟩

theorem Resolves.mono {names wrappers : List String} (h : Resolves d test named names)
    (hsub : ∀ n ∈ names, n ∈ wrappers) : Resolves d test named wrappers := by
  refine ⟨h.commits, ?_⟩
  intro declaration name value hdeclares haccepts
  obtain ⟨n, htext, hn⟩ := h.names hdeclares haccepts
  exact ⟨n, htext, hsub n hn⟩

variable {function : String} {names : List String}

theorem resultsOf_resolves (closed : d.batch = none) (h : resultsOf function d = .ok names d') :
    Resolves d (holdsResult function) (fun _ _ => return true) names := by
  obtain ⟨⟨declared, spent⟩, d₁, hdeclared, h⟩ := Leaves.bind_ok h
  obtain ⟨⟨assigned, spent'⟩, d₂, -, h⟩ := Leaves.bind_ok h
  obtain ⟨hnames, -⟩ := Leaves.pure h
  cases hnames
  exact (resolves_of_batched (plain_holdsResult function) (fun _ _ => plain_pure _) closed
    hdeclared).mono fun n hn => List.mem_append_left _ hn

theorem namesakesOf_resolves (closed : d.batch = none)
    (h : namesakesOf function d = .ok names d') :
    Resolves d (givesWay function) (isNamesake function) names := by
  obtain ⟨⟨declared, spent⟩, d₁, hdeclared, h⟩ := Leaves.bind_ok h
  obtain ⟨⟨assigned, spent'⟩, d₂, -, h⟩ := Leaves.bind_ok h
  obtain ⟨hnames, -⟩ := Leaves.pure h
  cases hnames
  exact (resolves_of_batched (plain_givesWay function) (plain_isNamesake function) closed
    hdeclared).mono fun n hn => List.mem_append_left _ hn

/-- Where nothing holds a result, nothing is given up for one. -/
theorem resultsOf_idle (closed : d.batch = none) (none : NoResults function d)
    (h : resultsOf function d = .ok names d') : names = [] ∧ d' = d := by
  obtain ⟨⟨declared, spent⟩, d₁, hdeclared, h⟩ := Leaves.bind_ok h
  obtain ⟨⟨assigned, spent'⟩, d₂, hassigned, h⟩ := Leaves.bind_ok h
  obtain ⟨hnames, rfl⟩ := Leaves.pure h
  cases hnames
  have hmadeDeclared : Made (collapseDeclarations (holdsResult function) fun _ _ => pure true) :=
    made_collapseDeclarations (plain_holdsResult function) fun _ _ => plain_pure _
  obtain ⟨b, hrecords, -, -, -, hidle⟩ := batched_records hmadeDeclared closed hdeclared
  obtain ⟨rfl, hb⟩ := collapseDeclarations_idle (plain_holdsResult function)
    (fun _ _ => plain_pure _) none.declared hrecords
  obtain rfl := hidle (by rw [hb]; rfl)
  have hmadeAssigned : Made (do
      let names ← collapseAssignments (holdsResult function)
      removeUninitialised names
      return names) :=
    (made_collapseAssignments (plain_holdsResult function)).bind fun names =>
      (made_removeUninitialised names).bind fun _ => made_pure _
  obtain ⟨b', hrecords, -, -, -, hidle⟩ := batched_records hmadeAssigned closed hassigned
  obtain ⟨found, b₁, hfound, hrecords⟩ :=
    hrecords.bind (made_collapseAssignments (plain_holdsResult function))
  obtain ⟨rfl, hb₁⟩ := collapseAssignments_idle (plain_holdsResult function) none.assigned hfound
  obtain ⟨u, b₂, hremoved, hrecords⟩ := hrecords.bind (made_removeUninitialised [])
  obtain ⟨rfl, hb'⟩ := hrecords.pure
  -- no name is left over, so no declaration without a value goes either
  have hempty : b'.edits = [] := by
    rw [hb', removeUninitialised_nil hremoved, hb₁]
    rfl
  exact ⟨rfl, hidle hempty⟩

theorem resolve_ok {s s' : Session} (h : resolve (some function) s = .ok names s') :
    ∃ direct d₁, resultsOf function s.document = .ok direct d₁ ∧
      ((direct ≠ [] ∧ names = direct.eraseDups) ∨
        direct = [] ∧ ∃ own d₂, namesakesOf function d₁ = .ok own d₂ ∧ names = own.eraseDups) := by
  have hreport : ∀ {found : List String} {t : Session}, Leaves (do
      if found.isEmpty then
        Pass.report .noWrapperBindings
          s!"No wrapper bindings found for render function '{function}'"
      return found.eraseDups : Pass (List String)) t (.ok names) s' → names = found.eraseDups := by
    intro found t hr
    dsimp only at hr
    split at hr
    · obtain ⟨u, t', -, hr⟩ := hr.bind_ok
      obtain ⟨hnames, -⟩ := hr.pure
      cases hnames
      rfl
    · obtain ⟨hnames, -⟩ := hr.pure
      cases hnames
      rfl
  obtain ⟨direct, t, hdirect, h⟩ := Leaves.bind_ok h
  obtain ⟨d₁, hrun, rfl⟩ := Pass.lift_ok hdirect
  refine ⟨direct, d₁, hrun, ?_⟩
  cases direct with
  | nil =>
    obtain ⟨own, t', hown, h⟩ := Leaves.bind_ok h
    obtain ⟨d₂, hrun', rfl⟩ := Pass.lift_ok hown
    exact .inr ⟨rfl, own, d₂, hrun', hreport h⟩
  | cons first rest => exact .inl ⟨List.cons_ne_nil _ _, hreport h⟩

end Wrapper

/-! ## The conversion -/

/-- What two passes of a conversion meet: `imported` is left by the import pass for the render pass,
`rendered` by the render pass, which yields the render function, for the resolver. -/
structure Meets (o : ConversionOptions) (source : String) (file : Option String)
    (function : Option String) (imported rendered : Session) : Prop where
  imports : ∃ d replaced, Document.ofString file source = .ok d ∧
    Import.replace o.cwd file o.testIdAttribute o.emitSetup ⟨d, file, []⟩ = .ok replaced imported
  renders : RenderCall.normalise imported = .ok function rendered

/-- A conversion runs the resolver on what the passes before it left. -/
theorem Conversion.resolves_of_ok {o : ConversionOptions} {source : String} {file : Option String}
    {c : Conversion} (h : Conversion.ofSource o source file = .ok c) :
    ∃ imported rendered resolved, Meets o source file c.renderFunction imported rendered ∧
      imported.document.batch = none ∧ rendered.document.batch = none ∧
      Wrapper.resolve c.renderFunction rendered = .ok c.wrappers resolved := by
  obtain ⟨d, s, hd, hrun⟩ := Conversion.ofSource_ok.mp h
  obtain ⟨r, hpasses, -, hc⟩ := Conversion.run_ok.mp hrun
  obtain ⟨hsound, hclosed⟩ := Document.sound_of_ofBytes hd
  have hpath : d.path = file := (Conversion.ofString_ok hd).1
  rw [hpath] at hpasses
  obtain ⟨replaced, imported, himports, h₁⟩ := Leaves.bind_ok hpasses
  obtain ⟨bound, resolved, hbindings, h₂⟩ := h₁.bind_ok
  obtain ⟨function, rendered, hrenders, h₃⟩ := hbindings.bind_ok
  obtain ⟨wrappers, t, hresolves, h₄⟩ := h₃.bind_ok
  obtain ⟨hbound, -⟩ := h₄.pure
  cases hbound
  obtain ⟨selectors, t₁, -, h₅⟩ := h₂.bind_ok
  obtain ⟨textAssertions, t₂, -, h₆⟩ := h₅.bind_ok
  obtain ⟨simulations, t₃, -, h₇⟩ := h₆.bind_ok
  obtain ⟨presenceAssertions, t₄, -, h₈⟩ := h₇.bind_ok
  obtain ⟨chainCalls, t₅, -, h₉⟩ := h₈.bind_ok
  obtain ⟨suggestions, t₆, -, h₁₀⟩ := h₉.bind_ok
  obtain ⟨hr, -⟩ := h₁₀.pure
  cases hr
  have hfirst : (⟨d, file, []⟩ : Session).document.batch = none := hclosed
  have himported := (Import.programmed_replace _ _ _ _).closed himports hfirst
  have hrendered := RenderCall.programmed_normalise.closed hrenders himported
  rw [hc]
  exact ⟨imported, rendered, t, ⟨⟨d, replaced, hd, himports⟩, hrenders⟩, himported, hrendered,
    hresolves⟩

/-- What the resolver meets, computed. -/
def rendered? (o : ConversionOptions) (source : String) (file : Option String) : Option Document :=
  match Document.ofString file source with
  | .error _ => none
  | .ok d =>
    match Import.replace o.cwd file o.testIdAttribute o.emitSetup ⟨d, file, []⟩ with
    | .error _ _ => none
    | .ok _ imported =>
      match RenderCall.normalise imported with
      | .error _ _ => none
      | .ok _ rendered => some rendered.document

theorem Meets.rendered_eq {o : ConversionOptions} {source : String} {file function : Option String}
    {imported rendered : Session} (h : Meets o source file function imported rendered) :
    rendered? o source file = some rendered.document := by
  obtain ⟨d, replaced, hd, himports⟩ := h.imports
  unfold rendered?
  rw [hd]
  dsimp only
  rw [himports]
  dsimp only
  rw [h.renders]

namespace Wrapper

/-- The declarations of one variable that pass a test. -/
def declared (d : Document) (test : Handle → Handle → Looking Bool) : List (Handle × Handle × Handle) :=
  match findAll declarationKinds d with
  | .error _ => []
  | .ok all => all.filterMap fun declaration =>
    match binding? declaration d with
    | .ok (some (name, value)) =>
      match test name value d with
      | .ok true => some (declaration, name, value)
      | _ => none
    | _ => none

theorem mem_declared {d : Document} {test : Handle → Handle → Looking Bool}
    {declaration name value : Handle} :
    (declaration, name, value) ∈ declared d test ↔ Declares d test declaration name value := by
  unfold declared
  cases hall : findAll declarationKinds d with
  | error e =>
    constructor
    · intro h
      cases h
    · intro h
      obtain ⟨all, hall', -⟩ := h.listed
      rw [hall] at hall'
      cases hall'
  | ok all =>
    simp only [List.mem_filterMap]
    constructor
    · intro h
      obtain ⟨a, ha, hsome⟩ := h
      split at hsome
      · rename_i n v hbinds
        split at hsome
        · rename_i hpasses
          cases hsome
          exact ⟨⟨all, hall, ha⟩, hbinds, hpasses⟩
        · cases hsome
      · cases hsome
    · intro h
      obtain ⟨all', hall', hmem⟩ := h.listed
      rw [hall] at hall'
      cases hall'
      exact ⟨declaration, hmem, by rw [h.binds]; dsimp only; rw [h.passes]⟩

/-- The assignments that pass a test. -/
def assigned (d : Document) (test : Handle → Handle → Looking Bool) : List Handle :=
  match findAll (.ofKind .assignmentExpression) d with
  | .error _ => []
  | .ok all => all.filter fun a =>
    match a.field? .left d, a.field? .right d with
    | .ok (some left), .ok (some right) =>
      match test left right d with
      | .ok true => true
      | _ => false
    | _, _ => false

theorem noResults_of_empty {function : String} {d : Document}
    (hdeclared : declared d (holdsResult function) = [])
    (hassigned : assigned d (holdsResult function) = []) : NoResults function d := by
  constructor
  · intro declaration name value hdeclares
    have hmem := mem_declared.mpr hdeclares
    rw [hdeclared] at hmem
    cases hmem
  · intro all hall a ha left right hleft hright hholds
    unfold assigned at hassigned
    rw [hall] at hassigned
    have hnot := List.filter_eq_nil_iff.mp hassigned a ha
    rw [hleft, hright] at hnot
    dsimp only at hnot
    rw [hholds] at hnot
    exact hnot rfl

end Wrapper

/-- Two tests, each with a wrapper of the one name. -/
def sameNames : String := "{const a=mount(1)}{let a=await mount(2)}"

end TestMigration
