import TestMigration.Proofs.Lines
import TestMigration.Proofs.Queries

/-! Where findings point. Three passes give a line to what they report, each the line that a call has
in the text that it meets. The passes before it have already made this text of the one that was given,
so the line is the call's own there only as far as their edits gain no line feeds before the call. -/

namespace TestMigration

/-- What finds the calls that findings of a code are about, if these have a line. -/
def DiagnosticCode.calls : DiagnosticCode → List Pattern
  | unboundRenderCall => RenderCall.primitives.map fun name => .callTo (.exactly name)
  | unconvertedSelector => [Selector.findCalls]
  | unmappedSimulateEvent => [Simulation.simulateCalls]
  | missingLegacyImport | missingRenderCall | noWrapperBindings => []

/-- The call is of the kind that findings of the code are about. -/
def Concerns (d : Document) (code : DiagnosticCode) (call : Handle) : Prop :=
  ∃ p ∈ code.calls, ∃ found, findAll p d = .ok found ∧ call ∈ found

/-- The finding is about the call, and has its line. -/
structure Locates (d : Document) (f : Diagnostic) (call : Handle) : Prop where
  concerns : Concerns d f.code call
  line : f.line = some (d.lineOf call.place.node.start : Int)

/-- Where such calls begin. -/
def callPlaces (d : Document) (code : DiagnosticCode) : List Nat :=
  code.calls.flatMap fun p => match findAll p d with
    | .ok found => found.map fun call => call.place.node.start
    | .error _ => []

theorem mem_callPlaces {d : Document} {code : DiagnosticCode} {place : Nat} :
    place ∈ callPlaces d code ↔ ∃ call, Concerns d code call ∧ call.place.node.start = place := by
  unfold callPlaces
  rw [List.mem_flatMap]
  constructor
  · rintro ⟨p, hp, hplace⟩
    split at hplace
    · rename_i found hfound
      obtain ⟨call, hcall, hstart⟩ := List.mem_map.mp hplace
      exact ⟨call, ⟨p, hp, found, hfound, hcall⟩, hstart⟩
    · cases hplace
  · rintro ⟨call, ⟨p, hp, found, hfound, hcall⟩, hstart⟩
    refine ⟨p, hp, ?_⟩
    rw [hfound]
    exact List.mem_map.mpr ⟨call, hcall, hstart⟩

theorem Handle.line_ok {h : Handle} {d : Document} {n : Nat} (hn : h.line d = .ok n) :
    n = d.lineOf h.place.node.start := by
  obtain ⟨d', hd, hn⟩ := looks_bind hn
  cases hd
  obtain ⟨node, hnode, hn⟩ := looks_bind hn
  cases hn
  rw [Handle.node_ok hnode]

namespace Pass

variable {α : Type} {s s' : Session}

/-! ## Findings without a line -/

/-- The pass reports nothing that has a line. -/
def Placeless (m : Pass α) : Prop :=
  Relates (fun s s' => ∀ f ∈ s'.findings, f.line.isSome → f ∈ s.findings) m

theorem placeless_stepwise : Stepwise Pass @Placeless :=
  relates_stepwise (fun _ _ hf _ => hf) fun h h' f hf hplaced => h f (h' f hf hplaced) hplaced

theorem Placeless.mem {m : Pass α} (hm : Placeless m) {x : Except Failure α} (h : Leaves m s x s')
    {f : Diagnostic} (hplaced : f.line.isSome) (hf : f ∈ s'.findings) : f ∈ s.findings :=
  hm _ _ _ h f hf hplaced

theorem lift_findings {edit : Editing α} {x : Except Failure α} (h : Leaves (lift edit) s x s') :
    s'.findings = s.findings := by
  obtain ⟨d, -, rfl⟩ := lift_leaves h
  rfl

theorem placeless_lift (edit : Editing α) : Placeless (lift edit) := by
  intro s x s' h f hf _
  rwa [lift_findings h] at hf

theorem placeless_look (look : Looking α) : Placeless (liftM look : Pass α) := placeless_lift _

theorem placeless_report (code : DiagnosticCode) (message : String) (level : DiagnosticLevel) :
    Placeless (report code message level none) := by
  intro s x s' h f hf hplaced
  obtain ⟨-, rfl⟩ := Leaves.modify (f := fun s : Session =>
    { s with findings := s.findings ++ [⟨code, message, level, s.file, none⟩] }) h
  rcases List.mem_append.mp hf with hold | hnew
  · exact hold
  · rw [List.mem_singleton.mp hnew] at hplaced
    cases hplaced

/-- A pass that replaces what a pattern finds in the tree. -/
theorem placeless_replaceWith (p : Pattern) (build : Handle → Looking (Option Text)) :
    Placeless (do (← (MatchSet.ofTree p : Looking _)).replaceWith build) :=
  placeless_stepwise.bind (placeless_look _) fun _ => placeless_lift _

/-! ## Findings about calls -/

/-- All that is new among the findings is of the code and has the line of one of the calls. The
document stays as it is. -/
structure Points (code : DiagnosticCode) (calls : List Handle) (s s' : Session) : Prop where
  document : s'.document = s.document
  new : ∀ f ∈ s'.findings, f ∈ s.findings ∨ f.code = code ∧
    ∃ call ∈ calls, f.line = some (s.document.lineOf call.place.node.start : Int)

/-- A finding that says something about a call, and where the call is. -/
theorem points_of_report {look : Looking α} {code : DiagnosticCode} {message : α → String}
    {level : DiagnosticLevel} {call : Handle} {u : Unit}
    (h : Leaves (do
      let shown ← (look : Pass α)
      let line ← (call.line : Pass Nat)
      report code (message shown) level (some line)) s (.ok u) s') :
    Points code [call] s s' := by
  obtain ⟨shown, t, hlook, h₁⟩ := h.bind_ok
  obtain ⟨-, ht⟩ := Pass.look_ok hlook
  rw [ht] at h₁
  obtain ⟨line, t₁, hline, h₂⟩ := h₁.bind_ok
  obtain ⟨hline, ht₁⟩ := Pass.look_ok hline
  rw [ht₁] at h₂
  obtain ⟨-, rfl⟩ := h₂.modify (f := fun s : Session =>
    { s with findings := s.findings ++ [⟨code, message shown, level, s.file, some line⟩] })
  refine ⟨rfl, ?_⟩
  intro f hf
  rcases List.mem_append.mp hf with hold | hnew
  · exact .inl hold
  · rw [List.mem_singleton.mp hnew, Handle.line_ok hline]
    exact .inr ⟨rfl, call, List.mem_singleton_self call, rfl⟩

theorem points_of_each {code : DiagnosticCode} {report : Handle → Pass Unit}
    (hreport : ∀ {call s s'}, Leaves (report call) s (.ok ()) s' → Points code [call] s s')
    {calls : List Handle} {u : PUnit}
    (h : Leaves (forIn calls PUnit.unit fun call _ => do
      report call
      return .yield PUnit.unit) s (.ok u) s') : Points code calls s s' := by
  induction calls generalizing s with
  | nil =>
    obtain ⟨-, rfl⟩ := Leaves.pure h
    exact ⟨rfl, fun f hf => .inl hf⟩
  | cons call rest ih =>
    rw [List.forIn_cons] at h
    obtain ⟨next, t, hturn, h₁⟩ := h.bind_ok
    obtain ⟨⟨⟩, t₁, hone, h₂⟩ := hturn.bind_ok
    obtain ⟨hnext, ht⟩ := h₂.pure
    cases hnext
    rw [← ht] at hone
    have hfirst := hreport hone
    have hrest := ih h₁
    refine ⟨hrest.document.trans hfirst.document, ?_⟩
    intro f hf
    rcases hrest.new f hf with hf | ⟨hcode, other, hother, hline⟩
    · refine (hfirst.new f hf).imp_right fun ⟨hcode, other, hother, hline⟩ => ?_
      rw [List.mem_singleton.mp hother] at hline
      exact ⟨hcode, call, List.mem_cons_self, hline⟩
    · rw [hfirst.document] at hline
      exact .inr ⟨hcode, other, List.mem_cons_of_mem _ hother, hline⟩

end Pass

/-- What is new among the findings and has a line is of the code, and locates a call of the document. -/
def Places (code : DiagnosticCode) (d : Document) (s s' : Session) : Prop :=
  ∀ f ∈ s'.findings, f.line.isSome → f ∈ s.findings ∨ f.code = code ∧ ∃ call, Locates d f call

/-- Calls that a pattern finds are what findings of the code are about. -/
theorem Pass.Points.places {code : DiagnosticCode} {p : Pattern} {calls : List Handle}
    {s s' : Session} (h : Points code calls s s') (hp : p ∈ code.calls)
    (hcalls : findAll p s.document = .ok calls) : Places code s.document s s' := by
  intro f hf _
  refine (h.new f hf).imp_right fun ⟨hcode, call, hcall, hline⟩ => ⟨hcode, call, ?_, hline⟩
  rw [hcode]
  exact ⟨p, hp, calls, hcalls, hcall⟩

/-! ## The passes -/

open Pass (Placeless placeless_stepwise placeless_lift placeless_look placeless_report
  placeless_replaceWith)

theorem Import.placeless_replace (cwd : PathName) (file : Option String) (attr : Text)
    (emitSetup : Bool) : Placeless (replace cwd file attr emitSetup) := by
  refine placeless_stepwise.bind (placeless_look _) fun legacy => ?_
  refine placeless_stepwise.bind ?_ fun _ => ?_
  · unfold reportMissing
    split
    · exact placeless_report _ _ _
    · exact placeless_stepwise.pure _
  refine placeless_stepwise.bind (placeless_lift _) fun _ => ?_
  refine placeless_stepwise.bind ?_ fun _ => placeless_stepwise.pure _
  cases file with
  | none => exact placeless_stepwise.pure _
  | some file =>
    refine placeless_stepwise.bind ?_ fun _ => placeless_stepwise.pure _
    exact placeless_stepwise.bind (placeless_lift _) fun _ => placeless_stepwise.pure _

theorem Wrapper.placeless_resolve (function : Option String) : Placeless (resolve function) := by
  cases function with
  | none => exact placeless_stepwise.pure _
  | some function =>
    refine placeless_stepwise.bind (placeless_lift _) fun direct => ?_
    have hrest : ∀ names : List String, Placeless (do
        if names.isEmpty then
          Pass.report .noWrapperBindings
            s!"No wrapper bindings found for render function '{function}'"
        return names.eraseDups) := by
      intro names
      split
      · exact placeless_stepwise.bind (placeless_report _ _ _) fun _ => placeless_stepwise.pure _
      · exact placeless_stepwise.pure _
    split
    · exact placeless_stepwise.bind (placeless_lift _) hrest
    · exact placeless_stepwise.bind (placeless_stepwise.pure direct) hrest

theorem Assertion.placeless_convertText : Placeless convertText := placeless_replaceWith _ _

theorem Assertion.placeless_convertPresence : Placeless convertPresence := placeless_replaceWith _ _

theorem Simulation.placeless_importUserEvent (converted : Nat) :
    Placeless (importUserEvent converted) := by
  refine placeless_stepwise.bind (placeless_look _) fun imported => ?_
  split
  · exact placeless_lift _
  · exact placeless_stepwise.pure _

theorem Chain.placeless_removeIdle : Placeless removeIdle := placeless_lift _

theorem Suggestion.placeless_add (wrappers : List String) (attr : String)
    (snapshot : Option Snapshot) : Placeless (add wrappers attr snapshot) :=
  placeless_stepwise.bind (placeless_lift _) fun _ => placeless_stepwise.pure _

/-- Rounds in which what a pattern finds is replaced. -/
def Pass.rewrite (p : Pattern) (build : Handle → Looking (Option Text)) : Pass Nat :=
  lift (Document.untilStable (do
    let _ ← (← (MatchSet.ofTree p : Looking _)).replaceWith build) Document.roundLimit)

theorem Pass.programmed_rewrite {p : Pattern} (hp : p.Quiet)
    {build : Handle → Looking (Option Text)} (hb : ∀ h, Plain (build h)) :
    Programmed (rewrite p build) :=
  programmed_lift (made_untilStable (MatchSet.made_ofTree_bind hp fun set hs =>
    (set.made_replaceWith hs hb).bind fun _ => made_pure _) _)

section

variable {s s' : Session}

/-- The line is the one that the first call has before any call is renamed. -/
theorem RenderCall.normalise_places {function : Option String} (h : normalise s = .ok function s') :
    Places .unboundRenderCall s.document s s' := by
  intro f hf hplaced
  rcases normalise_ok h with ⟨-, hreport⟩ | ⟨primitive, hprimitive, first, rest, hcalls, hconverts⟩
  · exact .inl ((placeless_report _ _ _).mem hreport hplaced hf)
  · obtain ⟨line, binding, name, u, spent, d, hline, -, -, -, hreport, -⟩ := convertCalls_ok hconverts
    unfold reportUnbound at hreport
    split at hreport
    · obtain ⟨-, rfl⟩ := hreport.modify (f := fun s : Session =>
        { s with findings := s.findings ++ [⟨.unboundRenderCall, _, .warning, s.file, some line⟩] })
      refine (List.mem_append.mp hf).imp_right fun hnew => ?_
      rw [List.mem_singleton.mp hnew, Handle.line_ok hline]
      have hpattern := List.mem_map_of_mem (f := fun name => Pattern.callTo (.exactly name)) hprimitive
      exact ⟨rfl, first, ⟨_, hpattern, _, hcalls, List.mem_cons_self⟩, rfl⟩
    · obtain ⟨-, rfl⟩ := hreport.pure
      exact .inl hf

theorem Selector.convert_places {attr : Text} {n : Nat} (h : convert attr s = .ok n s') :
    ∃ m t, Pass.rewrite findCalls (query? attr) s = .ok m t ∧
      Places .unconvertedSelector t.document s s' := by
  obtain ⟨m, t, hrewrite, h₁⟩ := Leaves.bind_ok h
  obtain ⟨calls, t₁, hcalls, h₂⟩ := h₁.bind_ok
  obtain ⟨hcalls, ht₁⟩ := Pass.look_ok hcalls
  rw [ht₁] at h₂
  obtain ⟨u, t₂, hloop, h₃⟩ := h₂.bind_ok
  obtain ⟨-, hs'⟩ := h₃.pure
  have hpoints : Pass.Points .unconvertedSelector calls t t₂ :=
    Pass.points_of_each (fun h => Pass.points_of_report h) hloop
  rw [hs']
  refine ⟨m, t, hrewrite, ?_⟩
  rw [Places, ← Pass.lift_findings hrewrite]
  exact hpoints.places (List.mem_singleton_self _) hcalls

theorem Simulation.convert_places {n : Nat} (h : convert s = .ok n s') :
    ∃ m t, Pass.rewrite namedCalls userCall? s = .ok m t ∧
      Places .unmappedSimulateEvent t.document s s' := by
  obtain ⟨m, t, hrewrite, h₁⟩ := Leaves.bind_ok h
  obtain ⟨calls, t₁, hcalls, h₂⟩ := h₁.bind_ok
  obtain ⟨hcalls, ht₁⟩ := Pass.look_ok hcalls
  rw [ht₁] at h₂
  obtain ⟨u, t₂, hloop, h₃⟩ := h₂.bind_ok
  obtain ⟨u', t₃, himport, h₄⟩ := h₃.bind_ok
  obtain ⟨-, hs'⟩ := h₄.pure
  have hpoints : Pass.Points .unmappedSimulateEvent calls t t₂ :=
    Pass.points_of_each (fun h => Pass.points_of_report h) hloop
  rw [hs']
  refine ⟨m, t, hrewrite, ?_⟩
  rw [Places, ← Pass.lift_findings hrewrite]
  intro f hf hplaced
  exact hpoints.places (List.mem_singleton_self _) hcalls f
    ((placeless_importUserEvent _).mem himport hplaced hf) hplaced

end

namespace Conversion

/-- The passes up to where calls are located for findings of a code. -/
def upTo (o : ConversionOptions) (file : Option String) : DiagnosticCode → Pass Unit
  | .unconvertedSelector => do
    let _ ← Import.replace o.cwd file o.testIdAttribute o.emitSetup
    let _ ← bindings
    let _ ← Pass.rewrite Selector.findCalls (Selector.query? o.testIdAttribute)
  | .unmappedSimulateEvent => do
    let _ ← Import.replace o.cwd file o.testIdAttribute o.emitSetup
    let _ ← bindings
    let _ ← Selector.convert o.testIdAttribute
    let _ ← Assertion.convertText
    let _ ← Pass.rewrite Simulation.namedCalls Simulation.userCall?
  | .unboundRenderCall | .missingLegacyImport | .missingRenderCall | .noWrapperBindings => do
    let _ ← Import.replace o.cwd file o.testIdAttribute o.emitSetup

open Pass (Programmed programmed_pure programmed_rewrite)

theorem programmed_upTo (o : ConversionOptions) (file : Option String) (code : DiagnosticCode) :
    Programmed (upTo o file code) := by
  have himport := Import.programmed_replace o.cwd file o.testIdAttribute o.emitSetup
  cases code with
  | unconvertedSelector =>
    refine himport.bind fun _ => programmed_bindings.bind fun _ => ?_
    exact (programmed_rewrite Selector.quiet_findCalls (Selector.plain_query? _)).bind fun _ =>
      programmed_pure _
  | unmappedSimulateEvent =>
    refine himport.bind fun _ => programmed_bindings.bind fun _ => ?_
    refine (Selector.programmed_convert _).bind fun _ => ?_
    refine Assertion.programmed_convertText.bind fun _ => ?_
    exact (programmed_rewrite Simulation.quiet_namedCalls Simulation.plain_userCall?).bind fun _ =>
      programmed_pure _
  | unboundRenderCall => exact himport.bind fun _ => programmed_pure _
  | missingLegacyImport => exact himport.bind fun _ => programmed_pure _
  | missingRenderCall => exact himport.bind fun _ => programmed_pure _
  | noWrapperBindings => exact himport.bind fun _ => programmed_pure _

theorem bindings_places {r : Option String × List String} {s s' : Session}
    (h : bindings s = .ok r s') : Places .unboundRenderCall s.document s s' := by
  obtain ⟨function, t, hnormalise, h₁⟩ := Leaves.bind_ok h
  obtain ⟨wrappers, t₁, hresolve, h₂⟩ := h₁.bind_ok
  obtain ⟨-, hs'⟩ := h₂.pure
  rw [hs']
  intro f hf hplaced
  exact RenderCall.normalise_places hnormalise f
    ((Wrapper.placeless_resolve _).mem hresolve hplaced hf) hplaced

/-- A finding with a line locates a call of the document that the pass met which reported it. -/
theorem passes_locate {o : ConversionOptions} {file : Option String} {s s' : Session}
    {r : (Option String × List String) × Statistics} (h : passes o file s = .ok r s')
    {f : Diagnostic} (hf : f ∈ s'.findings) (hplaced : f.line.isSome) :
    f ∈ s.findings ∨ ∃ t call, upTo o file f.code s = .ok () t ∧ Locates t.document f call := by
  obtain ⟨replaced, t₁, himport, h₁⟩ := Leaves.bind_ok h
  obtain ⟨bound, t₂, hbindings, h₂⟩ := h₁.bind_ok
  obtain ⟨selectors, t₃, hselectors, h₃⟩ := h₂.bind_ok
  obtain ⟨texts, t₄, htexts, h₄⟩ := h₃.bind_ok
  obtain ⟨simulations, t₅, hsimulations, h₅⟩ := h₄.bind_ok
  obtain ⟨m, met, hselect, hselected⟩ := Selector.convert_places hselectors
  obtain ⟨m', met', hsimulate, hsimulated⟩ := Simulation.convert_places hsimulations
  have hf₅ : f ∈ t₅.findings :=
    (placeless_stepwise.bind Assertion.placeless_convertPresence fun _ =>
      placeless_stepwise.bind Chain.placeless_removeIdle fun _ =>
        placeless_stepwise.bind (Suggestion.placeless_add _ _ _) fun _ =>
          placeless_stepwise.pure _).mem h₅ hplaced hf
  rcases hsimulated f hf₅ hplaced with hf₄ | ⟨hcode, call, hlocates⟩
  · rcases hselected f (Assertion.placeless_convertText.mem htexts hplaced hf₄) hplaced with
      hf₂ | ⟨hcode, call, hlocates⟩
    · rcases bindings_places hbindings f hf₂ hplaced with hf₁ | ⟨hcode, call, hlocates⟩
      · exact .inl ((Import.placeless_replace _ _ _ _).mem himport hplaced hf₁)
      · refine .inr ⟨t₁, call, ?_, hlocates⟩
        rw [hcode]
        exact himport.of_bind_ok
    · refine .inr ⟨met, call, ?_, hlocates⟩
      rw [hcode]
      exact himport.of_bind_ok.trans (hbindings.of_bind_ok.trans (Leaves.of_bind_ok hselect))
  · refine .inr ⟨met', call, ?_, hlocates⟩
    rw [hcode]
    exact himport.of_bind_ok.trans (hbindings.of_bind_ok.trans (hselectors.of_bind_ok.trans
      (htexts.of_bind_ok.trans (Leaves.of_bind_ok hsimulate))))

/-- A finding with a line is about a call of its kind, and has the line that the call begins on in the
text that the pass met which reported it. This text is made of the given one by edits. Whenever these
carry a call of the given text to the one that is located, the line is the call's own moved by what the
edits before the call gain. So it is the call's own line there if, and only if, they gain nothing. -/
theorem finding_located {o : ConversionOptions} {source : String} {file : Option String}
    {c : Conversion} {f : Diagnostic} (h : ofSource o source file = .ok c) (hf : f ∈ c.findings)
    (hplaced : f.line.isSome) :
    ∃ d s call, Document.ofString file source = .ok d ∧
      upTo o file f.code ⟨d, file, []⟩ = .ok () s ∧ Locates s.document f call ∧
      (∃ ess, Reworked d.source ess s.document.source) ∧
      ∀ ess given gained, Reworked d.source ess s.document.source → Concerns d f.code given →
        Carries d.source given.place.node.start ess call.place.node.start gained →
          f.line = some (d.lineOf given.place.node.start + gained) ∧
            (Locates d f given ↔ gained = 0) := by
  obtain ⟨d, s', hd, hrun⟩ := ofSource_ok.mp h
  obtain ⟨r, hpasses, -, hc⟩ := run_ok.mp hrun
  rw [(ofString_ok hd).1] at hpasses
  rw [hc] at hf
  have hclosed : (⟨d, file, []⟩ : Session).document.batch = none := (Document.sound_of_ofBytes hd).2
  obtain ⟨s, call, hmet, hlocates⟩ := (passes_locate hpasses hf hplaced).resolve_left List.not_mem_nil
  refine ⟨d, s, call, hd, hmet, hlocates, (programmed_upTo _ _ _).reworked hmet hclosed, ?_⟩
  intro ess given gained hreworked hconcerns hcarries
  have hcarried := hreworked.lineFeeds_carried hcarries
  have hline : f.line = some (d.lineOf given.place.node.start + gained) := by
    rw [hlocates.line]
    refine congrArg some ?_
    unfold Document.lineOf
    omega
  refine ⟨hline, ?_⟩
  constructor
  · intro hgiven
    have hsame := hgiven.line
    rw [hline] at hsame
    have := Option.some.inj hsame
    omega
  · rintro rfl
    exact ⟨hconcerns, by rw [hline, Int.add_zero]⟩

/-- The codes of what a conversion reports, with the lines. -/
def locations (c : Conversion) : List (DiagnosticCode × Option Int) :=
  c.findings.map fun f => (f.code, f.line)

theorem exists_of_locations {c : Conversion} {code : DiagnosticCode} {line : Option Int}
    (h : c.locations = [(code, line)]) : ∃ f ∈ c.findings, f.code = code ∧ f.line = line := by
  have hmem := List.mem_singleton_self (code, line)
  rw [← h] at hmem
  obtain ⟨f, hf, hfields⟩ := List.mem_map.mp hmem
  exact ⟨f, hf, Prod.mk.inj hfields⟩

/-- A script whose import has two lines. The header that takes its place has one. -/
def brokenImport : String := "import\n'enzyme'\nmount(1)"

/-- What is found, where the call is in the script, and where it is when it is reported. -/
theorem runs_brokenImport :
    (ofSource { cwd := ⟨0, []⟩ } brokenImport none).toOption.map locations = some [(.unboundRenderCall, some 2)] ∧
      (Document.ofString none brokenImport).toOption.map (fun d => callPlaces d .unboundRenderCall) = some [16] ∧
      (Document.ofString none brokenImport).toOption.map (fun d =>
        match upTo { cwd := ⟨0, []⟩ } none .unboundRenderCall ⟨d, none, []⟩ with
        | .ok () s => some (spelledBy [Import.renderLine, "\nmount(1)"] s.document.source,
            callPlaces s.document .unboundRenderCall)
        | .error .. => none) = some (some (true, [57])) := by
  decide +kernel

/-- The import pass puts the header at the top and takes the import away, so that the call moves up by
a line. -/
theorem finding_located_moved :
    ∃ c f d given, ofSource { cwd := ⟨0, []⟩ } brokenImport none = .ok c ∧ f ∈ c.findings ∧
      Document.ofString none brokenImport = .ok d ∧ Concerns d f.code given ∧
      f.line = some ((d.lineOf given.place.node.start : Int) + -1) := by
  obtain ⟨hlocations, hgivens, hmet⟩ := runs_brokenImport
  obtain ⟨c, hc, hfindings⟩ := exists_of_toOption_map hlocations
  obtain ⟨f, hf, hcode, hline⟩ := exists_of_locations hfindings
  obtain ⟨d, s, call, hd, hupTo, hlocates, -, hcarried⟩ := finding_located hc hf (by rw [hline]; rfl)
  rw [hd] at hgivens hmet
  replace hgivens := Option.some.inj hgivens
  replace hmet := Option.some.inj hmet
  dsimp only at hgivens hmet
  rw [hcode] at hupTo
  rw [hupTo] at hmet
  obtain ⟨hspelled, hcalls⟩ := Prod.mk.inj (Option.some.inj hmet)
  have htext : s.document.source = (Import.renderLine ++ "\nmount(1)").toUTF8 := eq_of_spelledBy hspelled
  have hcall : call.place.node.start = 57 := by
    have hfound := mem_callPlaces.mpr ⟨call, hlocates.concerns, rfl⟩
    rw [hcode, hcalls] at hfound
    exact List.mem_singleton.mp hfound
  obtain ⟨given, hgiven, hstart⟩ := mem_callPlaces.mp (hgivens ▸ List.mem_singleton_self 16)
  rw [← hcode] at hgiven
  let edits : List Edit :=
    [⟨0, 0, (Import.renderLine ++ "\n").toUTF8, 1, true⟩, ⟨0, 16, .empty, 0, false⟩]
  have hreworked : Reworked d.source [edits] s.document.source := by
    have hsplice : Edit.splice brokenImport.toUTF8 0 edits =
        (Import.renderLine ++ "\nmount(1)").toUTF8 := by decide +kernel
    rw [htext, (ofString_ok hd).2, ← hsplice]
    exact .step ⟨by decide +kernel, by decide +kernel⟩ (.refl _)
  have hcarries : Carries d.source given.place.node.start [edits] call.place.node.start (-1) := by
    have hoffset : Edit.offsetFrom 0 16 edits = 57 := by decide +kernel
    have hgain : Edit.gainBefore brokenImport.toUTF8 16 edits + 0 = -1 := by decide +kernel
    rw [hstart, hcall, (ofString_ok hd).2, ← hoffset, ← hgain]
    exact .step (by decide +kernel) (.refl _ _)
  exact ⟨c, f, d, given, hc, hf, hd, hgiven, (hcarried _ given (-1) hreworked hgiven hcarries).1⟩

/-- No call of its kind begins on the line that the finding names. -/
theorem finding_astray :
    ∃ c f d, ofSource { cwd := ⟨0, []⟩ } brokenImport none = .ok c ∧ f ∈ c.findings ∧
      f.line = some 2 ∧ Document.ofString none brokenImport = .ok d ∧ ¬ ∃ call, Locates d f call := by
  have hlines : (Document.ofString none brokenImport).toOption.map (fun d =>
      (callPlaces d .unboundRenderCall).map d.lineOf) = some [3] := by
    decide +kernel
  obtain ⟨c, hc, hfindings⟩ := exists_of_toOption_map runs_brokenImport.1
  obtain ⟨d, hd, hlines⟩ := exists_of_toOption_map hlines
  obtain ⟨f, hf, hcode, hline⟩ := exists_of_locations hfindings
  refine ⟨c, f, d, hc, hf, hline, hd, ?_⟩
  rintro ⟨call, hconcerns, hsame⟩
  have hplace := List.mem_map_of_mem (f := d.lineOf) (mem_callPlaces.mpr ⟨call, hconcerns, rfl⟩)
  rw [hcode, hlines] at hplace
  rw [List.mem_singleton.mp hplace, hline] at hsame
  exact absurd (Option.some.inj hsame) (by decide)

end Conversion

end TestMigration
