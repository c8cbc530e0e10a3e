import TestMigration.Proofs.Legible

/-! Scripts without a trace of the old library. In their trees nothing imports it, and nothing calls one
of its functions or of the methods that a conversion converts. Such a script may be full of assertions,
which the passes find and look into; none of them is about a wrapper, so no pass has anything to do. -/

namespace TestMigration

open Script (Node Kind Field Place)

/-! ## What stands at a place -/

namespace Document

/-- A call of a plain name of which the test holds. -/
def callsName (d : Document) (test : TextTest) (p : Place) : Bool :=
  p.node.kind == .callExpression && (p.field? .callee).any fun callee =>
    callee.node.kind == .identifier && test.holds (d.wording callee.node)

/-- A call of a method of whose name the test holds. -/
def callsMethod (d : Document) (test : TextTest) (p : Place) : Bool :=
  p.node.kind == .callExpression && (p.field? .callee).any fun callee =>
    callee.node.kind == .memberExpression && (callee.field? .property).any fun property =>
      property.node.kind == .propertyIdentifier && test.holds (d.wording property.node)

/-- The module that an import or a re-export names. -/
def moduleName? (d : Document) (p : Place) : Option Text :=
  p.moduleLiteral?.bind fun literal => d.valueOf? literal.node

/-- Is it a call of a mock directive? -/
def isDirective (d : Document) (p : Place) : Bool :=
  p.node.kind == .callExpression && (p.field? .callee).any fun callee =>
    Import.mockDirectives.contains (d.wording callee.node)

/-- The module that a mock directive names. -/
def directiveName? (d : Document) (p : Place) : Option Text :=
  p.callArguments.head?.bind fun argument => d.valueOf? argument.node

/-- The modules that an import, a re-export or a mock directive names. -/
def specifiersAt (d : Document) (p : Place) : List Text :=
  (if p.node.kind == .importStatement || p.node.kind == .exportStatement then
      (d.moduleName? p).toList else []) ++
    if d.isDirective p then (d.directiveName? p).toList else []

end Document

/-- The methods of a wrapper that a conversion converts, or looks for. -/
def wrapperMethods : List String :=
  ["find", "simulate", "text", "exists", "first", "hostNodes", "update"]

/-- The script has no trace of the old library; if it has a place of its own, nothing in it is named
relative to that place. -/
structure Modern (file : Option String) (d : Document) : Prop where
  /-- Nothing is imported from the old library. -/
  imports : ∀ p ∈ d.places, p.node.kind = .importStatement →
    d.moduleName? p ≠ some (Text.ofString "enzyme")
  /-- None of its functions is called. -/
  functions : ∀ p ∈ d.places, ∀ name ∈ ["mount", "shallow"], d.callsName (.exactly name) p = false
  /-- No method is called that a wrapper has. -/
  methods : ∀ p ∈ d.places, ∀ name ∈ wrapperMethods, d.callsMethod (.exactly name) p = false
  /-- No import, re-export or mock directive has a relative specifier. -/
  specifiers : file.isSome → ∀ p ∈ d.places, ∀ specifier ∈ d.specifiersAt p,
    Specifier.isRelative specifier = false

instance (file : Option String) (d : Document) : Decidable (Modern file d) :=
  decidable_of_iff
    ((∀ p ∈ d.places, p.node.kind = .importStatement →
        d.moduleName? p ≠ some (Text.ofString "enzyme")) ∧
      (∀ p ∈ d.places, ∀ name ∈ ["mount", "shallow"], d.callsName (.exactly name) p = false) ∧
      (∀ p ∈ d.places, ∀ name ∈ wrapperMethods, d.callsMethod (.exactly name) p = false) ∧
      (file.isSome → ∀ p ∈ d.places, ∀ specifier ∈ d.specifiersAt p,
        Specifier.isRelative specifier = false))
    ⟨fun h => ⟨h.1, h.2.1, h.2.2.1, h.2.2.2⟩,
      fun h => ⟨h.imports, h.functions, h.methods, h.specifiers⟩⟩

/-! ## The patterns of the passes -/

section Patterns

variable {d : Document} {p : Place} {test : TextTest} {kind : Kind}

theorem contains_singleton (a b : Kind) : [a].contains b = (b == a) := by
  rw [List.contains_cons, List.contains_nil, Bool.or_false]

/-- A node of some kind with a text. -/
theorem holdsOf_word (hd : d.Legible) (hp : p.Within d.root) :
    (Pattern.mk (some [kind]) (some test) [] none none none).holdsOf (d.handle p) d =
      .ok (p.node.kind == kind && test.holds (d.wording p.node)) := by
  refine (Pattern.holdsOf_handle hd hp (Pattern.fieldsHold_nil _) rfl rfl).trans ?_
  simp only [Pattern.countHolds, Option.all_some, contains_singleton, Bool.and_true]

theorem holdsOf_callTo (hd : d.Legible) (hp : p.Within d.root) (count : Option Int) :
    ((Pattern.callTo test).withArguments none count none).holdsOf (d.handle p) d =
      .ok (d.callsName test p && Pattern.countHolds count (p.callArguments.map d.handle)) := by
  refine (Pattern.holdsOf_handle hd hp
    (Pattern.fieldsHold_handle fun c hc => holdsOf_word hd (hp.field? hc)) rfl rfl).trans ?_
  simp only [Document.callsName, Option.all_some, Option.all_none, contains_singleton, Bool.and_true]

/-- Calls of a method, whatever is asked of their arguments. -/
theorem holdsOf_methodCall (hd : d.Legible) (hp : p.Within d.root) {leading : Option (List Pattern)}
    {count : Option Int} {led : Bool}
    (hleading : Pattern.leadingHold leading (p.callArguments.map d.handle) d = .ok led) :
    ((Pattern.methodCall test).withArguments leading count none).holdsOf (d.handle p) d =
      .ok (d.callsMethod test p &&
        (Pattern.countHolds count (p.callArguments.map d.handle) && led)) := by
  have hmember : ∀ c, p.field? .callee = some c →
      (Pattern.mk (some [.memberExpression]) none
        [(.property, .mk (some [.propertyIdentifier]) (some test) [] none none none)]
        none none none).holdsOf (d.handle c) d =
      .ok (c.node.kind == .memberExpression && (c.field? .property).any fun property =>
        property.node.kind == .propertyIdentifier && test.holds (d.wording property.node)) := by
    intro c hc
    refine (Pattern.holdsOf_handle hd (hp.field? hc) (Pattern.fieldsHold_handle fun q hq =>
      holdsOf_word hd ((hp.field? hc).field? hq)) rfl rfl).trans ?_
    simp only [Pattern.countHolds, Option.all_some, Option.all_none, contains_singleton,
      Bool.and_true]
  refine (Pattern.holdsOf_handle hd hp (Pattern.fieldsHold_handle hmember) hleading rfl).trans ?_
  simp only [Document.callsMethod, Option.all_some, Option.all_none, contains_singleton,
    Bool.and_true]

/-- Every literal that names the module of an import has a value. -/
def Document.ImportsNamed (d : Document) : Prop :=
  ∀ p ∈ d.places, p.node.kind = .importStatement → ∀ q ∈ p.moduleLiteral?, q.node.kind = .string →
    (Quoted.decode ((d.wording q.node).toList.drop 1).dropLast).isOk = true

instance (d : Document) : Decidable d.ImportsNamed := inferInstanceAs (Decidable (∀ _ ∈ _, _))

theorem importsNamed_of_spelt (hd : d.Legible) (hspelt : d.spelt = true) : d.ImportsNamed :=
  fun _ hp _ _ hq hkind =>
    Handle.isOk_of_spelt hd hspelt (Document.moduleLiteral?_mem_places hp hq hkind) hkind

theorem holdsOf_importsFrom_named (hd : d.Legible) (hnamed : d.ImportsNamed) (hp : p ∈ d.places)
    (module : String) :
    (Import.importsFrom module).holdsOf (d.handle p) d =
      .ok (p.node.kind == .importStatement && d.moduleName? p == some (Text.ofString module)) := by
  by_cases hkind : p.node.kind = .importStatement
  · have hname : ∀ literal, p.moduleLiteral? = literal →
        Handle.valueOf? (literal.map d.handle) d = .ok (d.moduleName? p) := by
      intro literal hliteral
      unfold Document.moduleName?
      rw [hliteral]
      cases literal with
      | none => rfl
      | some q =>
        refine Handle.literalValue?_of_isOk hd (fun hstring => ?_) (hnamed p hp hkind q hliteral)
        exact Document.within_of_mem_places (Document.moduleLiteral?_mem_places hp hliteral hstring)
    have halso : Pattern.alsoHolds (some fun h => do
        return (← Handle.valueOf? (← h.moduleLiteral?)) == some (Text.ofString module)) (d.handle p) d =
          .ok (d.moduleName? p == some (Text.ofString module)) :=
      look_bind_eq Handle.moduleLiteral?_handle (look_bind_eq (hname _ rfl) rfl)
    refine (Pattern.holdsOf_handle hd (Document.within_of_mem_places hp) (Pattern.fieldsHold_nil _)
      rfl halso).trans ?_
    simp only [Pattern.countHolds, Option.all_some, Option.all_none, contains_singleton, Bool.and_true]
  · -- of any other node the module is not asked
    have hother : (p.node.kind == Kind.importStatement) = false := beq_eq_false_iff_ne.mpr hkind
    rw [hother, Bool.false_and, Import.importsFrom, Pattern.holdsOf]
    refine look_bind_eq (Pattern.kindHolds_handle _) ?_
    rw [Option.all_some, contains_singleton, hother]
    rfl

theorem holdsOf_importsFrom (hd : d.Legible) (hspelt : d.spelt = true) (hp : p ∈ d.places)
    (module : String) :
    (Import.importsFrom module).holdsOf (d.handle p) d =
      .ok (p.node.kind == .importStatement && d.moduleName? p == some (Text.ofString module)) :=
  holdsOf_importsFrom_named hd (importsNamed_of_spelt hd hspelt) hp module

theorem holdsOf_moduleStatements (hd : d.Legible) (hp : p.Within d.root) :
    Import.moduleStatements.holdsOf (d.handle p) d =
      .ok ([Kind.importStatement, .exportStatement].contains p.node.kind &&
        p.moduleLiteral?.isSome) := by
  have halso : Pattern.alsoHolds (some fun h => do return (← h.moduleLiteral?).isSome)
      (d.handle p) d = .ok p.moduleLiteral?.isSome :=
    look_bind_eq Handle.moduleLiteral?_handle (congrArg Except.ok Option.isSome_map)
  refine (Pattern.holdsOf_handle hd hp (Pattern.fieldsHold_nil _) rfl halso).trans ?_
  simp only [Pattern.countHolds, Option.all_some, Option.all_none, Bool.and_true]

theorem holdsOf_directiveCalls (hd : d.Legible) (hp : p.Within d.root) :
    Import.directiveCalls.holdsOf (d.handle p) d =
      .ok (d.isDirective p && p.callArguments.head?.any (·.node.kind == .string)) := by
  have hcallee : ∀ c, p.field? .callee = some c →
      (Pattern.mk none none [] none none (some fun h => do
        return Import.mockDirectives.contains (← h.text))).holdsOf (d.handle c) d =
      .ok (Import.mockDirectives.contains (d.wording c.node)) := by
    intro c hc
    have halso : Pattern.alsoHolds (some fun h => do
        return Import.mockDirectives.contains (← h.text)) (d.handle c) d =
          .ok (Import.mockDirectives.contains (d.wording c.node)) :=
      look_bind_eq (Handle.text_handle hd (hp.field? hc)) rfl
    refine (Pattern.holdsOf_handle hd (hp.field? hc) (Pattern.fieldsHold_nil _) rfl halso).trans ?_
    simp only [Pattern.countHolds, Option.all_none, Bool.and_true, Bool.true_and]
  refine (Pattern.holdsOf_handle hd hp (Pattern.fieldsHold_handle hcallee)
    (Pattern.leadingHold_ofKind hd .string fun q hq => hp.argument hq) rfl).trans ?_
  simp only [Document.isDirective, Pattern.countHolds, Option.all_some, Option.all_none,
    contains_singleton, Bool.and_true, Bool.true_and]

end Patterns

/-! ## Assertions -/

namespace Assertion

variable {d : Document} {p q : Place} {test : TextTest}

theorem subject?_handle : subject? (d.handle p) d = .ok (p.subject?.map d.handle) := by
  refine look_bind_eq (Handle.field?_handle _) ?_
  unfold Place.subject?
  cases p.field? .callee with
  | none => rfl
  | some callee => exact Handle.field?_handle _

/-- What a method is called on is met by a search, for so is the member expression above it. -/
theorem subject?_mem_places (hp : p ∈ d.places) (hmethod : d.callsMethod test p = true)
    (hq : p.subject? = some q) (hnamed : q.node.kind.isNamed = true) : q ∈ d.places := by
  obtain ⟨callee, hcallee, hobject⟩ := Option.bind_eq_some_iff.mp hq
  obtain ⟨-, hmember⟩ := Bool.and_eq_true_iff.mp hmethod
  rw [hcallee, Option.any_some] at hmember
  have hkind : callee.node.kind = .memberExpression :=
    beq_iff_eq.mp (Bool.and_eq_true_iff.mp hmember).1
  refine Document.field?_mem_places (Document.field?_mem_places hp hcallee ?_) hobject hnamed
  rw [hkind]
  rfl

/-- No argument of `expect` is found where a search of the tree finds none. -/
theorem expectArgument?_none (hd : d.Legible) {pattern : Pattern} (hp : p.Within d.root)
    (hplace : p.node.kind = .callExpression → p ∈ d.places)
    (hnone : ∀ q ∈ d.places, pattern.holdsOf (d.handle q) d = .ok false) :
    expectArgument? (some (d.handle p)) pattern d = .ok none := by
  refine look_bind_eq (holdsOf_callTo hd hp (some 1)) ?_
  cases hcall : d.callsName (.exactly "expect") p &&
      Pattern.countHolds (some 1) (p.callArguments.map d.handle) with
  | false => rfl
  | true =>
    obtain ⟨hname, -⟩ := Bool.and_eq_true_iff.mp hcall
    have hmem := hplace (beq_iff_eq.mp (Bool.and_eq_true_iff.mp hname).1)
    refine look_bind_eq Handle.firstArgument?_handle ?_
    cases hargument : p.callArguments.head? with
    | none => rfl
    | some argument =>
      exact look_bind_eq (hnone argument
        (Document.argument_mem_places hmem (List.mem_of_mem_head? hargument))) rfl

theorem textContent?_none (hd : d.Legible) (hp : p ∈ d.places)
    (hmethod : d.callsMethod test p = true)
    (hnone : ∀ q ∈ d.places, textCall.holdsOf (d.handle q) d = .ok false) :
    textContent? (d.handle p) d = .ok none := by
  refine look_bind_eq subject?_handle ?_
  cases hq : p.subject? with
  | none => rfl
  | some q =>
    obtain ⟨callee, hcallee, hobject⟩ := Option.bind_eq_some_iff.mp hq
    have hwithin := ((Document.within_of_mem_places hp).field? hcallee).field? hobject
    refine look_bind_eq (expectArgument?_none hd hwithin (fun hkind => ?_) hnone) rfl
    refine subject?_mem_places hp hmethod hq ?_
    rw [hkind]
    rfl

/-! ### What is expected -/

theorem argumentText_answers (hd : d.Legible) (hp : p.Within d.root) :
    ∃ text, (d.handle p).argumentText d = .ok text := by
  refine answers_option (Handle.field?_handle _) ⟨"", rfl⟩ fun list hlist => ?_
  exact answers_bind (Handle.text_handle hd (hp.field? hlist)) ⟨_, rfl⟩

theorem calledMember?_handle : (d.handle p).calledMember? d =
    .ok (((p.field? .callee).filter (·.node.kind == .memberExpression)).map d.handle) := by
  refine look_bind_eq (Handle.field?_handle _) ?_
  cases p.field? .callee with
  | none => rfl
  | some callee =>
    refine look_bind_eq Handle.kind_handle ?_
    rw [Option.filter_some]
    cases callee.node.kind == Kind.memberExpression <;> rfl

theorem methodName?_answers (hd : d.Legible) (hp : p.Within d.root) :
    ∃ name, (d.handle p).methodName? d = .ok name := by
  refine answers_option calledMember?_handle ⟨none, rfl⟩ fun callee hcallee => ?_
  refine answers_option (Handle.field?_handle _) ⟨none, rfl⟩ fun property hproperty => ?_
  have hwithin := (hp.field? (Option.filter_eq_some_iff.mp hcallee).1).field? hproperty
  exact answers_bind (Handle.text_handle hd hwithin) ⟨_, rfl⟩

theorem literalExpectation?_answers : ∃ value, literalExpectation? (d.handle p) d = .ok value := by
  refine answers_option (Handle.field?_handle _) ⟨none, rfl⟩ fun list _ => ?_
  refine answers_bind Handle.namedChildren_handle ?_
  rcases list.namedChildren with _ | ⟨argument, _ | ⟨second, rest⟩⟩
  · exact ⟨none, rfl⟩
  · refine answers_bind Handle.kind_handle ?_
    generalize argument.node.kind = kind
    split <;> exact ⟨_, rfl⟩
  · exact ⟨none, rfl⟩

theorem expectation?_answers (hd : d.Legible) (hp : p.Within d.root) :
    ∃ expected, expectation? (d.handle p) d = .ok expected := by
  have hbare : ∀ present : Bool, ∃ expected, (do
      return if (← (d.handle p).argumentText) == "" then some present else none :
        Looking (Option Bool)) d = .ok expected := by
    intro present
    obtain ⟨text, htext⟩ := argumentText_answers hd hp
    exact answers_bind htext ⟨_, rfl⟩
  obtain ⟨name, hname⟩ := methodName?_answers hd hp
  refine answers_bind hname ?_
  split
  · exact literalExpectation?_answers
  · exact literalExpectation?_answers
  · exact hbare true
  · exact hbare false
  · exact ⟨none, rfl⟩

/-- The object of a `.not` is found below a member expression. -/
theorem denied?_answers (hd : d.Legible) (hp : p.Within d.root) :
    ∃ inner : Option Place, denied? (d.handle p) d = .ok (inner.map d.handle) ∧
      ∀ q, inner = some q → p.node.kind = .memberExpression ∧ p.field? .object = some q := by
  by_cases hkind : p.node.kind = .memberExpression
  · cases hproperty : p.field? .property with
    | none =>
      refine ⟨none, look_bind_eq Handle.kind_handle ?_, by simp⟩
      rw [if_neg (by simp [hkind])]
      refine look_bind_eq (Handle.field?_handle _) ?_
      rw [hproperty]
      rfl
    | some property =>
      refine ⟨if d.wording property.node == "not" then p.field? .object else none,
        look_bind_eq Handle.kind_handle ?_, fun q hq => ⟨hkind, ?_⟩⟩
      · rw [if_neg (by simp [hkind])]
        refine look_bind_eq (Handle.field?_handle _) ?_
        rw [hproperty]
        refine look_bind_eq (Handle.text_handle hd (hp.field? hproperty)) ?_
        split
        · exact Handle.field?_handle _
        · rfl
      · split at hq
        · exact hq
        · cases hq
  · refine ⟨none, look_bind_eq Handle.kind_handle ?_, by simp⟩
    rw [if_pos (by simpa using hkind)]
    rfl

theorem restated?_none {present : Bool} {h : Handle}
    (hnone : expectArgument? (some h) existsCall d = .ok none) :
    restated? present h d = .ok none := look_bind_eq hnone rfl

theorem presence?_none (hd : d.Legible) (hp : p ∈ d.places)
    (hmethod : d.callsMethod test p = true)
    (hnone : ∀ q ∈ d.places, existsCall.holdsOf (d.handle q) d = .ok false) :
    presence? (d.handle p) d = .ok none := by
  obtain ⟨expected, hexpected⟩ := expectation?_answers hd (Document.within_of_mem_places hp)
  refine look_bind_eq hexpected ?_
  cases expected with
  | none => rfl
  | some expected =>
  refine look_bind_eq subject?_handle ?_
  cases hq : p.subject? with
  | none => rfl
  | some q =>
  obtain ⟨callee, hcallee, hobject⟩ := Option.bind_eq_some_iff.mp hq
  have hwithin := ((Document.within_of_mem_places hp).field? hcallee).field? hobject
  have hplace : q.node.kind.isNamed = true → q ∈ d.places := subject?_mem_places hp hmethod hq
  obtain ⟨inner, hdenied, hinner⟩ := denied?_answers hd hwithin
  refine look_bind_eq hdenied ?_
  cases inner with
  | none =>
    refine restated?_none (expectArgument?_none hd hwithin (fun hkind => hplace ?_) hnone)
    rw [hkind]
    rfl
  | some r =>
    obtain ⟨hmember, hr⟩ := hinner r rfl
    refine restated?_none (expectArgument?_none hd (hwithin.field? hr) (fun hkind => ?_) hnone)
    refine Document.field?_mem_places (hplace ?_) hr ?_
    · rw [hmember]
      rfl
    · rw [hkind]
      rfl

end Assertion

/-! ## Nothing to do -/

section Settled

variable {d : Document} {file : Option String}

theorem resolved_handle (hd : d.Legible) (hspelt : d.spelt = true) {q : Place}
    (hq : q.node.kind = .string → q ∈ d.places)
    (hrelative : ∀ specifier, d.valueOf? q.node = some specifier →
      Specifier.isRelative specifier = false) : Import.Resolved d (d.handle q) := by
  refine ⟨_, Handle.literalValue?_handle hd hspelt hq, fun specifier hvalue => ?_⟩
  unfold Specifier.needsResolving
  rw [hrelative specifier hvalue, Bool.false_and]

/-- The literals that name modules are those of the statements and directives that are found. -/
theorem moduleLiterals_eq (hd : d.Legible) : Import.moduleLiterals d = .ok
    ((MatchSet.distinct ((d.places.filter fun p =>
        [Kind.importStatement, .exportStatement].contains p.node.kind && p.moduleLiteral?.isSome).map
          d.handle)).filterMap (fun h => h.place.moduleLiteral?.map d.handle) ++
      (MatchSet.distinct ((d.places.filter fun p =>
        d.isDirective p && p.callArguments.head?.any (·.node.kind == .string)).map d.handle)).filterMap
          fun h => h.place.callArguments.head?.map d.handle) := by
  have hsources := found_eq fun p hp =>
    holdsOf_moduleStatements hd (Document.within_of_mem_places hp)
  have hdirectives := found_eq fun p hp =>
    holdsOf_directiveCalls hd (Document.within_of_mem_places hp)
  refine look_bind_eq hsources (look_bind_eq (filterMapM_eq
    (g := fun h => h.place.moduleLiteral?.map d.handle) fun a ha => ?_)
    (look_bind_eq hdirectives (look_bind_eq (filterMapM_eq
    (g := fun h => h.place.callArguments.head?.map d.handle) fun a ha => ?_) rfl)))
  · obtain ⟨p, -, -, rfl⟩ := mem_found ha
    exact Handle.moduleLiteral?_handle
  · obtain ⟨p, -, -, rfl⟩ := mem_found ha
    exact Handle.firstArgument?_handle

theorem Modern.allResolved (h : Modern file d) (hd : d.Legible) (hspelt : d.spelt = true)
    (hfile : file.isSome) : Import.AllResolved d := by
  refine ⟨_, moduleLiterals_eq hd, fun l hl => ?_⟩
  rcases List.mem_append.mp hl with hl | hl
  · obtain ⟨a, ha, hl⟩ := List.mem_filterMap.mp hl
    obtain ⟨p, hp, hholds, rfl⟩ := mem_found ha
    obtain ⟨q, hq, rfl⟩ := Option.map_eq_some_iff.mp hl
    replace hq : p.moduleLiteral? = some q := hq
    refine resolved_handle hd hspelt (Document.moduleLiteral?_mem_places hp hq)
      fun specifier hvalue => h.specifiers hfile p hp specifier ?_
    have hkind : (p.node.kind == .importStatement || p.node.kind == .exportStatement) = true := by
      simpa using (Bool.and_eq_true_iff.mp hholds).1
    unfold Document.specifiersAt Document.moduleName?
    rw [if_pos hkind, hq, Option.bind_some, hvalue]
    exact List.mem_append_left _ List.mem_cons_self
  · obtain ⟨a, ha, hl⟩ := List.mem_filterMap.mp hl
    obtain ⟨p, hp, hholds, rfl⟩ := mem_found ha
    obtain ⟨q, hq, rfl⟩ := Option.map_eq_some_iff.mp hl
    replace hq : p.callArguments.head? = some q := hq
    refine resolved_handle hd hspelt
      (fun _ => Document.argument_mem_places hp (List.mem_of_mem_head? hq))
      fun specifier hvalue => h.specifiers hfile p hp specifier ?_
    unfold Document.specifiersAt Document.directiveName?
    rw [if_pos (Bool.and_eq_true_iff.mp hholds).1, hq, Option.bind_some, hvalue]
    exact List.mem_append_right _ List.mem_cons_self

/-- A method of several names is a method of one of them. -/
theorem callsMethod_oneOf {names : List String} {p : Place}
    (h : d.callsMethod (.oneOf names) p = true) :
    ∃ name ∈ names, d.callsMethod (.exactly name) p = true := by
  obtain ⟨hcall, hcallee⟩ := Bool.and_eq_true_iff.mp h
  obtain ⟨callee, hfound, hmember⟩ := (Option.any_eq_true _ _).mp hcallee
  obtain ⟨hkind, hproperty⟩ := Bool.and_eq_true_iff.mp hmember
  obtain ⟨property, hnamed, hholds⟩ := (Option.any_eq_true _ _).mp hproperty
  obtain ⟨hword, hname⟩ := Bool.and_eq_true_iff.mp hholds
  rw [TextTest.holds_oneOf] at hname
  refine ⟨_, List.contains_iff_mem.mp hname, ?_⟩
  unfold Document.callsMethod
  rw [hcall, hfound, Option.any_some, hkind, hnamed, Option.any_some, hword, TextTest.holds_exactly,
    beq_self_eq_true]
  rfl

/-- No call of a wrapper's method is met, whatever else is asked of it. -/
theorem Modern.found_no_call (h : Modern file d) (hd : d.Legible) {test : TextTest}
    (htest : ∀ p ∈ d.places, d.callsMethod test p = true →
      ∃ name ∈ wrapperMethods, d.callsMethod (.exactly name) p = true)
    {leading : Option (List Pattern)} {count : Option Int} (hleading : ∀ p ∈ d.places, ∃ led,
      Pattern.leadingHold leading (p.callArguments.map d.handle) d = .ok led) :
    ∀ p ∈ d.places, ((Pattern.methodCall test).withArguments leading count none).holdsOf
      (d.handle p) d = .ok false := by
  intro p hp
  obtain ⟨led, hled⟩ := hleading p hp
  have hnone : d.callsMethod test p = false := by
    rw [← Bool.not_eq_true]
    intro hcalls
    obtain ⟨name, hname, hcalls⟩ := htest p hp hcalls
    rw [h.methods p hp name hname] at hcalls
    cases hcalls
  refine (holdsOf_methodCall hd (Document.within_of_mem_places hp) hled).trans ?_
  rw [hnone, Bool.false_and]

theorem Modern.found_no_method (h : Modern file d) (hd : d.Legible) {name : String}
    (hname : name ∈ wrapperMethods) (count : Option Int) :
    ∀ p ∈ d.places, ((Pattern.methodCall (.exactly name)).withArguments none count none).holdsOf
      (d.handle p) d = .ok false :=
  h.found_no_call hd (fun _ _ hcalls => ⟨name, hname, hcalls⟩) fun _ _ => ⟨true, rfl⟩

theorem Modern.found_no_find (h : Modern file d) (hd : d.Legible) :
    findAll Selector.findCalls d = .ok [] :=
  found_nothing (h.found_no_method hd (by decide) none)

theorem Modern.found_no_simulate (h : Modern file d) (hd : d.Legible) :
    findAll Simulation.simulateCalls d = .ok [] :=
  found_nothing (h.found_no_method hd (by decide) none)

/-- Nothing is left to do in a script without a trace of the old library. -/
theorem Modern.settled (h : Modern file d) (hd : d.Legible) (hspelt : d.spelt = true)
    (o : ConversionOptions) : Settled o file d := by
  have hfinds := h.found_no_find hd
  have hevents := h.found_no_simulate hd
  have hnamed : findAll Simulation.namedCalls d = .ok [] :=
    found_nothing (h.found_no_call hd (fun _ _ hcalls => ⟨"simulate", by decide, hcalls⟩)
      fun p hp => ⟨_, Pattern.leadingHold_ofKind hd .string fun q hq =>
        (Document.within_of_mem_places hp).argument hq⟩)
  have hchains : findAll (Chain.calls (.oneOf ["first", "hostNodes"])) d = .ok [] := by
    refine found_nothing (h.found_no_call hd (fun p hp hcalls => ?_) fun _ _ => ⟨true, rfl⟩)
    obtain ⟨name, hname, hcalls⟩ := callsMethod_oneOf hcalls
    have hsub : ["first", "hostNodes"] ⊆ wrapperMethods := by decide
    exact ⟨name, hsub hname, hcalls⟩
  have hmatchers : ∀ names, findAll (.methodCall (.oneOf names)) d =
      .ok (MatchSet.distinct ((d.places.filter (d.callsMethod (.oneOf names))).map d.handle)) := by
    refine fun names => found_eq fun p hp => ?_
    have hall : Pattern.leadingHold none (p.callArguments.map d.handle) d = .ok true := rfl
    refine (@holdsOf_methodCall _ _ _ hd (Document.within_of_mem_places hp) _ none _ hall).trans ?_
    rw [Pattern.countHolds, Bool.and_true, Bool.and_true]
  exact {
    imports := by
      refine found_nothing fun p hp => (holdsOf_importsFrom hd hspelt hp _).trans ?_
      rw [show Import.legacyModule = "enzyme" from rfl]
      by_cases hkind : p.node.kind = .importStatement
      · rw [beq_eq_false_iff_ne.mpr (h.imports p hp hkind), Bool.and_false]
      · rw [beq_eq_false_iff_ne.mpr hkind, Bool.false_and]
    specifiers := h.allResolved hd hspelt
    renderCalls := by
      intro primitive hprimitive
      have hname : primitive ∈ ["mount", "shallow"] := by
        have hsub : RenderCall.primitives ⊆ ["mount", "shallow"] := by decide
        exact hsub hprimitive
      refine found_nothing fun p hp =>
        (holdsOf_callTo hd (Document.within_of_mem_places hp) none).trans ?_
      rw [h.functions p hp primitive hname, Bool.false_and]
    selectors := ⟨[], hfinds, by simp⟩
    reportedSelectors := ⟨[], hfinds, by simp⟩
    texts := by
      refine ⟨_, hmatchers _, fun a ha => ?_⟩
      obtain ⟨p, hp, hmethod, rfl⟩ := mem_found ha
      exact Assertion.textContent?_none hd hp hmethod (h.found_no_method hd (by decide) _)
    presences := by
      refine ⟨_, hmatchers _, fun a ha => ?_⟩
      obtain ⟨p, hp, hmethod, rfl⟩ := mem_found ha
      exact Assertion.presence?_none hd hp hmethod (h.found_no_method hd (by decide) _)
    events := ⟨[], hnamed, by simp⟩
    reportedEvents := ⟨[], hevents, by simp⟩
    userEvent := answers_bind rfl
      (answers_bind (first_eq fun p hp => holdsOf_importsFrom hd hspelt hp _) ⟨_, rfl⟩)
    chains := ⟨[], hchains, by simp⟩
    updates := found_nothing (h.found_no_method hd (by decide) _)
    findNotes := ⟨[], hfinds, by simp⟩
    eventNotes := ⟨[], hevents, by simp⟩ }

end Settled

end TestMigration
