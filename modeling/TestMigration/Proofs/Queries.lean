import TestMigration.Proofs.Recording
import TestMigration.Proofs.Repetition

/-! Which query stands for a `find` call with a test id. The selector pass asks for what may be absent
only where the call is the `x` of `expect(x).not` at that time. The pass for presence assertions comes
later: it takes the query over as it is and, where absence is expected, puts a `not` behind it. -/

namespace TestMigration

/-! ## Passes that report -/

namespace Pass

/-- The pass leaves the document alone. -/
def Reports {α : Type} (m : Pass α) : Prop := Relates (fun s s' => s'.document = s.document) m

theorem reports_stepwise : Stepwise Pass @Reports :=
  relates_stepwise (fun _ => rfl) fun h h' => h'.trans h

theorem reports_look {α : Type} (l : Looking α) : Reports (liftM l : Pass α) := by
  intro s x s' h
  obtain ⟨d, hlook, rfl⟩ := lift_leaves (h : Leaves (lift (Document.looking l)) s x s')
  exact (Document.looking_leaves hlook).2

theorem reports_report (code : DiagnosticCode) (message : String) (level : DiagnosticLevel)
    (line : Option Int) : Reports (Pass.report code message level line) := by
  intro s x s' h
  obtain ⟨-, rfl⟩ := Leaves.modify (f := fun s : Session =>
    { s with findings := s.findings ++ [⟨code, message, level, s.file, line⟩] }) h
  rfl

end Pass

/-! ## Selectors -/

namespace Selector

variable {attr : Text} {d d' : Document} {call : Handle}

/-- The call is the `x` of `expect(x).not`, by the nodes named. -/
structure DeniedBy (d : Document) (call arguments expect callee member object property : Handle) :
    Prop where
  argued : call.parent? d = .ok (some arguments)
  isList : arguments.kind d = .ok .arguments
  expected : arguments.parent? d = .ok (some expect)
  isCall : expect.kind d = .ok .callExpression
  called : expect.field? .callee d = .ok (some callee)
  isExpect : callee.text d = .ok "expect"
  accessed : expect.parent? d = .ok (some member)
  isMember : member.kind d = .ok .memberExpression
  holder : member.field? .object d = .ok (some object)
  isSame : object.same expect = true
  accessor : member.field? .property d = .ok (some property)
  isNot : property.text d = .ok "not"

/-- The call is the `x` of `expect(x).not`. -/
def Denied (d : Document) (call : Handle) : Prop :=
  ∃ arguments expect callee member object property,
    DeniedBy d call arguments expect callee member object property

/-- A call on whose result something is called, as `exists` or `first`, is not denied. -/
theorem not_denied_of_accessed {member : Handle} (hparent : call.parent? d = .ok (some member))
    (hkind : member.kind d = .ok .memberExpression) : ¬ Denied d call := by
  intro hdenied
  obtain ⟨arguments, expect, callee, access, object, property, h⟩ := hdenied
  have hlist := h.argued
  rw [hparent] at hlist
  cases hlist
  cases hkind.symm.trans h.isList

theorem hasKind_ok {h : Handle} {kind : Script.Kind} {b : Bool} (hk : hasKind h kind d = .ok b) :
    b = true ↔ h.kind d = .ok kind := by
  obtain ⟨k, hkind, hk⟩ := looks_bind hk
  cases hk
  rw [hkind, beq_iff_eq]
  exact ⟨congrArg _, Except.ok.inj⟩

/-- A test that gives up where nothing is there has found something when it holds. -/
theorem some_of_holds {α : Type} {l : Looking (Option α)} {next : Option α → Looking Bool}
    (h : (l >>= next) d = .ok true) (hnone : next none = pure false) :
    ∃ a, l d = .ok (some a) ∧ next (some a) d = .ok true := by
  obtain ⟨found, hfound, h⟩ := looks_bind h
  cases found with
  | none =>
    rw [hnone] at h
    cases h
  | some a => exact ⟨a, hfound, h⟩

/-- A test that gives up at other kinds has met the kind when it holds. -/
theorem kind_of_holds {met : Handle} {kind : Script.Kind} {next : Bool → Looking Bool}
    (h : (hasKind met kind >>= next) d = .ok true) (hother : next false = pure false) :
    met.kind d = .ok kind ∧ next true d = .ok true := by
  obtain ⟨b, hb, h⟩ := looks_bind h
  cases b with
  | false =>
    rw [hother] at h
    cases h
  | true => exact ⟨(hasKind_ok hb).mp rfl, h⟩

theorem denied_of_isDenied (h : isDenied call d = .ok true) : Denied d call := by
  obtain ⟨arguments, harguments, h⟩ := some_of_holds h rfl
  obtain ⟨hlist, h⟩ := kind_of_holds h rfl
  obtain ⟨expect, hexpect, h⟩ := some_of_holds h rfl
  obtain ⟨hcall, h⟩ := kind_of_holds h rfl
  obtain ⟨callee, hcallee, h⟩ := some_of_holds h rfl
  obtain ⟨name, hname, h⟩ := looks_bind h
  split at h
  · cases h
  rename_i hexactly
  obtain ⟨member, hmember, h⟩ := some_of_holds h rfl
  obtain ⟨haccess, h⟩ := kind_of_holds h rfl
  obtain ⟨object, hobject, h⟩ := some_of_holds h rfl
  obtain ⟨property, hproperty, h⟩ := some_of_holds h rfl
  obtain ⟨denial, hdenial, h⟩ := looks_bind h
  have hboth : object.same expect = true ∧ denial = "not" := by
    simpa using Except.ok.inj h
  have hlabel : name = "expect" := by simpa using hexactly
  exact ⟨arguments, expect, callee, member, object, property,
    { argued := harguments
      isList := hlist
      expected := hexpect
      isCall := hcall
      called := hcallee
      isExpect := hlabel ▸ hname
      accessed := hmember
      isMember := haccess
      holder := hobject
      isSame := hboth.1
      accessor := hproperty
      isNot := hboth.2 ▸ hdenial }⟩

theorem hasKind_of_kind {h : Handle} {kind : Script.Kind} (hk : h.kind d = .ok kind) :
    hasKind h kind d = .ok true := by
  unfold hasKind
  rw [look_bind_of_ok hk, beq_self_eq_true]
  rfl

theorem isDenied_of_denied (h : Denied d call) : isDenied call d = .ok true := by
  obtain ⟨arguments, expect, callee, member, object, property, h⟩ := h
  unfold isDenied
  rw [look_bind_of_ok h.argued]
  dsimp only
  rw [look_bind_of_ok (hasKind_of_kind h.isList)]
  rw [if_neg (by decide)]
  rw [look_bind_of_ok h.expected]
  dsimp only
  rw [look_bind_of_ok (hasKind_of_kind h.isCall)]
  rw [if_neg (by decide)]
  rw [look_bind_of_ok h.called]
  dsimp only
  rw [look_bind_of_ok h.isExpect, bne_self_eq_false, if_neg (by decide)]
  rw [look_bind_of_ok h.accessed]
  dsimp only
  rw [look_bind_of_ok (hasKind_of_kind h.isMember)]
  rw [if_neg (by decide)]
  rw [look_bind_of_ok h.holder]
  dsimp only
  rw [look_bind_of_ok h.accessor]
  dsimp only
  rw [look_bind_of_ok h.isNot, h.isSame]
  rfl

theorem isDenied_ok {b : Bool} (h : isDenied call d = .ok b) : b = true ↔ Denied d call := by
  constructor
  · intro hb
    rw [hb] at h
    exact denied_of_isDenied h
  · intro hd
    rw [isDenied_of_denied hd] at h
    exact (Except.ok.inj h).symm

/-- The query for a selector. For a test id it is the one that does not throw if the call is denied,
and the one that throws if it is not. -/
inductive Answers (denied : Prop) : Selector → Text → Prop where
  | absent {value : Text} :
    denied → Answers denied (.testId value) (callText "screen.queryByTestId" [Quoted.encode value])
  | present {value : Text} :
    ¬ denied → Answers denied (.testId value) (callText "screen.getByTestId" [Quoted.encode value])
  | role {value : Text} :
    Answers denied (.role value) (callText "screen.getByRole" [Quoted.encode value])

/-- What is asked of the page in the place of a `find` call. -/
def Asks (attr : Text) (d : Document) (call : Handle) (text : Text) : Prop :=
  ∃ argument selector, call.firstArgument? d = .ok argument ∧
    classify attr argument d = .ok selector ∧ Answers (Denied d call) selector text

theorem asks_iff {argument : Option Handle} {selector : Selector} {text : Text}
    (hargument : call.firstArgument? d = .ok argument)
    (hselector : classify attr argument d = .ok selector) :
    Asks attr d call text ↔ Answers (Denied d call) selector text := by
  constructor
  · intro hasks
    obtain ⟨argument', selector', hargument', hselector', hanswers⟩ := hasks
    rw [hargument] at hargument'
    cases hargument'
    rw [hselector] at hselector'
    cases hselector'
    exact hanswers
  · intro hanswers
    exact ⟨argument, selector, hargument, hselector, hanswers⟩

theorem query?_ok {text : Option Text} (h : query? attr call d = .ok text) (t : Text) :
    text = some t ↔ Asks attr d call t := by
  obtain ⟨argument, hargument, h⟩ := looks_bind h
  obtain ⟨selector, hselector, h⟩ := looks_bind h
  rw [asks_iff hargument hselector]
  cases selector with
  | testId value =>
    obtain ⟨denied, hdenied, h⟩ := looks_bind h
    cases h
    have hiff := isDenied_ok hdenied
    cases denied with
    | true =>
      constructor
      · intro ht
        cases ht
        exact .absent (hiff.mp rfl)
      · intro hanswers
        cases hanswers with
        | absent _ => rfl
        | present hnot => exact absurd (hiff.mp rfl) hnot
    | false =>
      have hnot : ¬ Denied d call := fun hd => Bool.noConfusion (hiff.mpr hd)
      constructor
      · intro ht
        cases ht
        exact .present hnot
      · intro hanswers
        cases hanswers with
        | absent hd => exact absurd hd hnot
        | present _ => rfl
  | role value =>
    cases h
    constructor
    · intro ht
      cases ht
      exact .role
    · intro hanswers
      cases hanswers
      rfl
  | other =>
    cases h
    constructor
    · intro ht
      cases ht
    · intro hanswers
      cases hanswers

/-- The edits recorded put queries in the place of `find` calls, of all those that have one. -/
structure Queries (attr : Text) (d : Document) (recorded : List Edit) : Prop where
  only : ∀ e ∈ recorded, ∃ found call t s, findAll findCalls d = .ok found ∧ call ∈ found ∧
    Asks attr d call t ∧ t.toString? = some s ∧ e.Puts call.place.node.start call.place.node.stop s
  each : ∃ found, findAll findCalls d = .ok found ∧ ∀ call ∈ found, ∀ t, Asks attr d call t →
    ∃ s, t.toString? = some s ∧ ∃ e ∈ recorded, e.Puts call.place.node.start call.place.node.stop s

theorem queries_of_replaces {found : List Handle} {recorded : List Edit}
    (hfound : findAll findCalls d = .ok found) (h : Replaces (query? attr) d found recorded) :
    Queries attr d recorded := by
  constructor
  · intro e he
    obtain ⟨call, hcall, t, s, hquery, hs, hputs⟩ := h.only e he
    exact ⟨found, call, t, s, hfound, hcall, (query?_ok hquery t).mp rfl, hs, hputs⟩
  · refine ⟨found, hfound, ?_⟩
    intro call hcall t hasks
    obtain ⟨text, hquery, heach⟩ := h.each call hcall
    exact heach t ((query?_ok hquery t).mpr hasks)

theorem reports_reportUnconverted (call : Handle) : Pass.Reports (reportUnconverted call) :=
  Pass.reports_stepwise.bind (Pass.reports_look _) fun _ =>
    Pass.reports_stepwise.bind (Pass.reports_look _) fun _ => Pass.reports_report _ _ _ _

theorem convert_queries {s s' : Session} (closed : s.document.batch = none) {n : Nat}
    (h : convert attr s = .ok n s') : Rounds (Queries attr) s.document s'.document := by
  obtain ⟨n', t, hlift, h⟩ := Leaves.bind_ok h
  obtain ⟨d, hrounds, rfl⟩ := Pass.lift_ok hlift
  -- the calls that are left are only reported
  have hrest : s'.document = d := by
    obtain ⟨calls, t₁, hcalls, h⟩ := h.bind_ok
    obtain ⟨-, ht₁⟩ := Pass.look_ok hcalls
    obtain ⟨u, t₂, hreports, h⟩ := h.bind_ok
    obtain ⟨-, hs'⟩ := h.pure
    have hsame := Pass.reports_stepwise.forIn (fun call _ => Pass.reports_stepwise.bind
      (reports_reportUnconverted call) fun _ => Pass.reports_stepwise.pure _) calls _ _ _ _ hreports
    rw [hs', hsame, ht₁]
  rw [hrest]
  refine (rounds_of_replaceAll quiet_findCalls (plain_query? attr) closed hrounds).mono ?_
  intro d₁ recorded hreplaced
  obtain ⟨found, hfound, hreplaces⟩ := hreplaced
  exact queries_of_replaces hfound hreplaces

end Selector

/-! ## Presence assertions -/

namespace Assertion

variable {d d' : Document} {assertion : Handle}

/-- What the assertion expects of the argument of an `expect` call: that it is present, or that it is
not. A `not` turns the expectation round. -/
inductive Expects (d : Document) (assertion : Handle) : Bool → Handle → Prop where
  | plain {present : Bool} {expect : Handle} :
    expectation? assertion d = .ok (some present) → subject? assertion d = .ok (some expect) →
      denied? expect d = .ok none → Expects d assertion present expect
  | denied {present : Bool} {subject expect : Handle} :
    expectation? assertion d = .ok (some present) → subject? assertion d = .ok (some subject) →
      denied? subject d = .ok (some expect) → Expects d assertion (!present) expect

/-- The new text of `outer` is the old one with the receiver of `call`, as it is written, in the
place of `call`. -/
def Uncalls (d : Document) (outer call : Handle) (text : String) : Prop :=
  ∃ receiver, ((∃ r, call.receiver? d = .ok (some r) ∧ r.text d = .ok receiver) ∨
      call.receiver? d = .ok none ∧ receiver = "") ∧
    text.toUTF8 = d.source.extract outer.place.node.start call.place.node.start ++
      receiver.toUTF8 ++ d.source.extract call.place.node.stop outer.place.node.stop

/-- The assertion is about the presence of what `exists` is called on, and the text asserts that of
the same thing: it has a `not` if absence is expected, and none if it is not. -/
def Restates (d : Document) (assertion : Handle) (text : Text) : Prop :=
  ∃ present expect call subject, Expects d assertion present expect ∧
    expectArgument? (some expect) existsCall d = .ok (some call) ∧ Uncalls d expect call subject ∧
      text = .ofString (subject ++ (if present then "" else ".not") ++ ".toBeInTheDocument()")

theorem textWith_one {outer inner : Handle} {text whole : String}
    (h : outer.textWith [(inner, text)] d = .ok whole) :
    whole.toUTF8 = d.source.extract outer.place.node.start inner.place.node.start ++
      text.toUTF8 ++ d.source.extract inner.place.node.stop outer.place.node.stop := by
  obtain ⟨n, hn, h⟩ := looks_bind h
  obtain ⟨pairs, hpairs, h⟩ := looks_bind h
  obtain ⟨pair, hpair, hpairs⟩ := looks_bind hpairs
  cases hpairs
  obtain ⟨m, hm, hpair⟩ := looks_bind hpair
  cases hpair
  rw [← Handle.node_ok hn, ← Handle.node_ok hm]
  obtain ⟨d₁, hd₁, h⟩ := looks_bind h
  cases hd₁
  obtain ⟨bytes, hbytes, h⟩ := looks_bind h
  rw [← Conversion.decode_ok.mp h]
  -- there is one replacement only, and nothing to sort
  rw [List.reverse_singleton, List.mergeSort_singleton] at hbytes
  replace hbytes : Handle.substituted d n n.start [(m, text)] = .ok bytes := hbytes
  unfold Handle.substituted at hbytes
  split at hbytes
  · cases hbytes
    rfl
  · cases hbytes

theorem withReceiver_uncalls {outer call : Handle} {text : String}
    (h : withReceiver outer call d = .ok text) : Uncalls d outer call text := by
  obtain ⟨receiver, hreceiver, h⟩ := looks_bind h
  cases receiver with
  | none =>
    obtain ⟨shown, hshown, h⟩ := looks_bind h
    cases hshown
    exact ⟨"", .inr ⟨hreceiver, rfl⟩, textWith_one h⟩
  | some r =>
    obtain ⟨shown, hshown, h⟩ := looks_bind h
    exact ⟨shown, .inl ⟨r, hreceiver, hshown⟩, textWith_one h⟩

theorem restated?_uncalls {present : Bool} {expect : Handle} {text : Text}
    (h : restated? present expect d = .ok (some text)) : ∃ call subject,
      expectArgument? (some expect) existsCall d = .ok (some call) ∧ Uncalls d expect call subject ∧
        text = .ofString (subject ++ (if present then "" else ".not") ++ ".toBeInTheDocument()") := by
  obtain ⟨call, hcall, h⟩ := looks_bind h
  cases call with
  | none => cases h
  | some call =>
  obtain ⟨shown, hshown, h⟩ := looks_bind h
  exact ⟨call, shown, hcall, withReceiver_uncalls hshown, (Option.some.inj (Except.ok.inj h)).symm⟩

theorem presence?_restates {text : Text} (h : presence? assertion d = .ok (some text)) :
    Restates d assertion text := by
  obtain ⟨expected, hexpected, h⟩ := looks_bind h
  cases expected with
  | none => cases h
  | some expected =>
  obtain ⟨subject, hsubject, h⟩ := looks_bind h
  cases subject with
  | none => cases h
  | some subject =>
  obtain ⟨inner, hinner, h⟩ := looks_bind h
  cases inner with
  | none =>
    obtain ⟨call, shown, hrest⟩ := restated?_uncalls h
    exact ⟨expected, subject, call, shown, .plain hexpected hsubject hinner, hrest⟩
  | some inner =>
    obtain ⟨call, shown, hrest⟩ := restated?_uncalls h
    exact ⟨!expected, inner, call, shown, .denied hexpected hsubject hinner, hrest⟩

/-- The edits recorded put new assertions in the place of assertions about presence, of all those
for which there is a new one. -/
structure Restatements (d : Document) (recorded : List Edit) : Prop where
  only : ∀ e ∈ recorded, ∃ assertion t s, Restates d assertion t ∧ t.toString? = some s ∧
    e.Puts assertion.place.node.start assertion.place.node.stop s
  each : ∃ found, findAll (.methodCall (.oneOf presenceMatchers)) d = .ok found ∧
    ∀ assertion ∈ found, ∃ text, presence? assertion d = .ok text ∧ ∀ t, text = some t →
      ∃ s, t.toString? = some s ∧
        ∃ e ∈ recorded, e.Puts assertion.place.node.start assertion.place.node.stop s

theorem convertPresence_restates {s s' : Session} (closed : s.document.batch = none) {n : Nat}
    (h : convertPresence s = .ok n s') : ∃ b : Batch, Restatements s.document b.edits ∧
      s'.document.source = b.outcome s.document.source := by
  replace h : Leaves (Pass.lift (do
      (← (MatchSet.ofTree (.methodCall (.oneOf presenceMatchers)) : Looking _)).replaceWith
        presence?)) s (.ok n) s' := h
  obtain ⟨d, hreplace, rfl⟩ := Pass.lift_ok h
  obtain ⟨found, b, hfound, hreplaces, hsource⟩ := replaceAll_replaces plain_presence? closed hreplace
  refine ⟨b, ⟨?_, found, hfound, hreplaces.each⟩, hsource⟩
  intro e he
  obtain ⟨assertion, -, t, s, htext, hs, hputs⟩ := hreplaces.only e he
  exact ⟨assertion, t, s, presence?_restates htext, hs, hputs⟩

end Assertion

/-! ## The conversion -/

/-- Four sessions of a conversion: `met` and `queried` are what the selector pass meets and leaves,
`asserted` and `restated` what the pass for presence assertions does. -/
structure Asserts (o : ConversionOptions) (source : String) (file : Option String)
    (met queried asserted restated : Session) : Prop where
  before : ∃ d imported replaced bound, Document.ofString file source = .ok d ∧
    Import.replace o.cwd file o.testIdAttribute o.emitSetup ⟨d, file, []⟩ = .ok replaced imported ∧
      Conversion.bindings imported = .ok bound met
  selectors : ∃ n, Selector.convert o.testIdAttribute met = .ok n queried
  between : ∃ n s m, Assertion.convertText queried = .ok n s ∧ Simulation.convert s = .ok m asserted
  presence : ∃ n, Assertion.convertPresence asserted = .ok n restated

/-- A conversion chooses its queries before it restates what is asserted of them. For a test id the
query is the one that does not throw exactly where the `find` call is at that time the `x` of
`expect(x).not`; later an assertion of absence gets its `not`, and the query in it stays. -/
theorem queries_chosen {o : ConversionOptions} {source : String} {file : Option String}
    {c : Conversion} (h : Conversion.ofSource o source file = .ok c) :
    ∃ met queried asserted restated, Asserts o source file met queried asserted restated ∧
      Rounds (Selector.Queries o.testIdAttribute) met.document queried.document ∧
      ∃ b : Batch, Assertion.Restatements asserted.document b.edits ∧
        restated.document.source = b.outcome asserted.document.source := by
  obtain ⟨d, s, hd, hrun⟩ := Conversion.ofSource_ok.mp h
  obtain ⟨r, hpasses, -, -⟩ := Conversion.run_ok.mp hrun
  have hpath : d.path = file := (Conversion.ofString_ok hd).1
  rw [hpath] at hpasses
  have hclosed : (⟨d, file, []⟩ : Session).document.batch = none := (Document.sound_of_ofBytes hd).2
  obtain ⟨replaced, imported, himports, h₁⟩ := Leaves.bind_ok hpasses
  obtain ⟨bound, met, hbindings, h₂⟩ := h₁.bind_ok
  obtain ⟨selectors, queried, hselectors, h₃⟩ := h₂.bind_ok
  obtain ⟨textAssertions, texts, htexts, h₄⟩ := h₃.bind_ok
  obtain ⟨simulations, asserted, hsimulations, h₅⟩ := h₄.bind_ok
  obtain ⟨presenceAssertions, restated, hpresence, -⟩ := h₅.bind_ok
  have hmet := Conversion.programmed_bindings.closed hbindings
    ((Import.programmed_replace _ _ _ _).closed himports hclosed)
  have hqueried := (Selector.programmed_convert _).closed hselectors hmet
  have hasserted := Simulation.programmed_convert.closed hsimulations
    (Assertion.programmed_convertText.closed htexts hqueried)
  exact ⟨met, queried, asserted, restated,
    { before := ⟨d, imported, replaced, bound, hd, himports, hbindings⟩
      selectors := ⟨selectors, hselectors⟩
      between := ⟨textAssertions, texts, simulations, htexts, hsimulations⟩
      presence := ⟨presenceAssertions, hpresence⟩ },
    Selector.convert_queries hmet hselectors, Assertion.convertPresence_restates hasserted hpresence⟩

theorem queries_chosen_under_not :
    ∃ c met queried asserted restated, Conversion.ofSource { cwd := ⟨0, []⟩ }
        "expect(w.find('[data-testid=\"x\"]')).not.toBe(1)" none = .ok c ∧
      c.code = "expect(screen.queryByTestId(\"x\")).not.toBe(1)" ∧
      Asserts { cwd := ⟨0, []⟩ } "expect(w.find('[data-testid=\"x\"]')).not.toBe(1)" none
        met queried asserted restated ∧
      Rounds (Selector.Queries "data-testid") met.document queried.document ∧
      ∃ b : Batch, Assertion.Restatements asserted.document b.edits ∧
        restated.document.source = b.outcome asserted.document.source := by
  have hcode : (Conversion.ofSource { cwd := ⟨0, []⟩ }
      "expect(w.find('[data-testid=\"x\"]')).not.toBe(1)" none).toOption.map (·.code) =
        some "expect(screen.queryByTestId(\"x\")).not.toBe(1)" := by
    decide +kernel
  obtain ⟨c, hc, htext⟩ := exists_of_toOption_map hcode
  obtain ⟨met, queried, asserted, restated, hasserts⟩ := queries_chosen hc
  exact ⟨c, met, queried, asserted, restated, hc, htext, hasserts⟩

namespace Selector

/-- The calls of the tree that match and are the `x` of `expect(x).not`. -/
def deniedCalls (p : Pattern) (d : Document) : List Handle :=
  match findAll p d with
  | .error _ => []
  | .ok found => found.filter fun call => (isDenied call d).toOption == some true

theorem mem_deniedCalls {p : Pattern} {d : Document} {call : Handle} (h : call ∈ deniedCalls p d) :
    (∃ found, findAll p d = .ok found ∧ call ∈ found) ∧ Denied d call := by
  unfold deniedCalls at h
  split at h
  · cases h
  · rename_i found hfound
    obtain ⟨hmem, hdenied⟩ := List.mem_filter.mp h
    have hmap : (isDenied call d).toOption.map id = some true := by simpa using hdenied
    obtain ⟨b, hb, rfl⟩ := exists_of_toOption_map hmap
    exact ⟨⟨found, hfound, hmem⟩, denied_of_isDenied hb⟩

end Selector

/-- An assertion that the page has no element with a test id. -/
def absence : String := "expect(w.find('[data-testid=\"x\"]').exists()).toBe(false)"

/-- An `exists` that is expected to be false is no `not` yet when the query is chosen: the query that
throws comes to stand under the `not` that the later pass writes. -/
theorem absent_demanded :
    ∃ d c d' found call, Document.ofString none absence = .ok d ∧
      findAll (.methodCall (.exactly "getByTestId")) d = .ok [] ∧
      Conversion.ofSource { cwd := ⟨0, []⟩ } absence none = .ok c ∧
      c.code = "expect(screen.getByTestId(\"x\")).not.toBeInTheDocument()" ∧
      Document.ofString none c.code = .ok d' ∧
      findAll (.methodCall (.exactly "getByTestId")) d' = .ok found ∧ call ∈ found ∧
      Selector.Denied d' call := by
  obtain ⟨hbefore, hcode⟩ : (Document.ofString none absence).toOption.map (fun d =>
        (findAll (.methodCall (.exactly "getByTestId")) d).toOption.map List.isEmpty) = some (some true) ∧
      (Conversion.ofSource { cwd := ⟨0, []⟩ } absence none).toOption.map (·.code) =
        some "expect(screen.getByTestId(\"x\")).not.toBeInTheDocument()" := by
    decide +kernel
  have hafter : (Document.ofString none
      "expect(screen.getByTestId(\"x\")).not.toBeInTheDocument()").toOption.map (fun d =>
        (Selector.deniedCalls (.methodCall (.exactly "getByTestId")) d).isEmpty) = some false := by
    decide +kernel
  obtain ⟨d, hd, hfinds⟩ := exists_of_toOption_map hbefore
  obtain ⟨none, hnone, hempty⟩ := exists_of_toOption_map hfinds
  obtain ⟨c, hc, htext⟩ := exists_of_toOption_map hcode
  obtain ⟨d', hd', hsome⟩ := exists_of_toOption_map hafter
  obtain ⟨call, hcall⟩ := List.exists_mem_of_ne_nil _ (List.isEmpty_eq_false_iff.mp hsome)
  obtain ⟨⟨found, hfound, hmem⟩, hdenied⟩ := Selector.mem_deniedCalls hcall
  rw [List.isEmpty_iff.mp hempty] at hnone
  rw [← htext] at hd'
  exact ⟨d, c, d', found, call, hd, hnone, hc, htext, hd', hfound, hmem, hdenied⟩

end TestMigration
