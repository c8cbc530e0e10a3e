import TestMigration.Proofs.Counts
import TestMigration.Proofs.Holders
import TestMigration.Proofs.Settled

/-! The two passes over assertions. Each looks for calls of a matcher, replaces those that assert a text
or a presence, all in one batch, and yields how many there were. An assertion inside another one is
counted with it, but of the two only the outer is replaced. -/

namespace TestMigration

open Script (Node Kind Field Place)

/-! ## The assertions of a tree -/

namespace Document

/-- A call of `expect` on one argument of which the test holds. -/
def expects (d : Document) (holds : Place → Bool) (p : Place) : Bool :=
  d.callsName (.exactly "expect") p && match p.callArguments with
    | [argument] => holds argument
    | _ => false

/-- What stands before a `.not`. -/
def denied? (d : Document) (p : Place) : Option Place :=
  if p.node.kind == .memberExpression then
    (p.field? .property).bind fun property =>
      if d.wording property.node == "not" then p.field? .object else none
  else none

/-- The name of the method that is called. -/
def method? (d : Document) (p : Place) : Option String :=
  (((p.field? .callee).filter (·.node.kind == .memberExpression)).bind (·.field? .property)).map
    fun property => d.wording property.node

/-- What stands between the parentheses of a call. -/
def argumentText (d : Document) (p : Place) : String :=
  match p.field? .arguments with
  | none => ""
  | some list => Blank.trim (String.ofList ((d.wording list.node).toList.drop 1).dropLast)

end Document

/-- The truth value that is the only argument of a call. -/
def Script.Place.literal? (p : Place) : Option Bool :=
  match p.field? .arguments with
  | none => none
  | some list =>
    match list.namedChildren with
    | [argument] =>
      match argument.node.kind with
      | .trueLiteral => some true
      | .falseLiteral => some false
      | _ => none
    | _ => none

namespace Document

/-- What a matcher expects to be the case. -/
def expectation? (d : Document) (p : Place) : Option Bool :=
  match d.method? p with
  | some "toBe" | some "toEqual" => p.literal?
  | some "toBeTruthy" => if d.argumentText p == "" then some true else none
  | some "toBeFalsy" => if d.argumentText p == "" then some false else none
  | _ => none

/-- What is asserted is the text of something. -/
def assertsText (d : Document) (p : Place) : Bool :=
  p.subject?.any (d.expects (d.callsBare (.exactly "text")))

/-- What is asserted is the presence or the absence of something. -/
def assertsPresence (d : Document) (p : Place) : Bool :=
  (d.expectation? p).isSome && p.subject?.any fun q => d.expects (d.callsBare (.exactly "exists")) ((d.denied? q).getD q)

end Document

namespace Assertion

variable {d : Document} {p q : Place} {holds : Place → Bool} {inner : Pattern}

theorem expectArgument?_handle (hd : d.Legible) (hp : p.Within d.root)
    (hinner : ∀ q : Place, q.Within d.root → inner.holdsOf (d.handle q) d = .ok (holds q)) :
    expectArgument? (some (d.handle p)) inner d =
      .ok (if d.expects holds p then p.callArguments.head?.map d.handle else none) := by
  refine look_bind_eq (holdsOf_callTo hd hp (some 1)) ?_
  unfold Document.expects
  cases d.callsName (.exactly "expect") p with
  | false => rfl
  | true =>
    rcases hall : p.callArguments with _ | ⟨argument, _ | ⟨second, rest⟩⟩
    · rfl
    · refine look_bind_eq Handle.firstArgument?_handle ?_
      rw [hall]
      exact look_bind_eq (hinner argument (hp.argument (by simp [hall]))) rfl
    · have hcount : Pattern.countHolds (some 1) ((argument :: second :: rest).map d.handle) = false := by
        rw [Pattern.countHolds, beq_eq_false_iff_ne, List.length_map, List.length_cons, List.length_cons]
        omega
      rw [Bool.true_and, hcount]
      rfl

theorem denied?_handle (hd : d.Legible) (hp : p.Within d.root) :
    denied? (d.handle p) d = .ok ((d.denied? p).map d.handle) := by
  refine look_bind_eq Handle.kind_handle ?_
  unfold Document.denied?
  rw [bne]
  cases p.node.kind == Kind.memberExpression with
  | false => rfl
  | true =>
    refine look_bind_eq (Handle.field?_handle _) ?_
    cases hproperty : p.field? .property with
    | none => rfl
    | some property =>
      refine look_bind_eq (Handle.text_handle hd (hp.field? hproperty)) ?_
      rw [if_pos rfl, Option.bind_some]
      cases d.wording property.node == "not" with
      | false => rfl
      | true => exact Handle.field?_handle _

theorem methodName?_handle (hd : d.Legible) (hp : p.Within d.root) :
    (d.handle p).methodName? d = .ok (d.method? p) := by
  refine look_bind_eq calledMember?_handle ?_
  unfold Document.method?
  cases hcallee : (p.field? .callee).filter (·.node.kind == .memberExpression) with
  | none => rfl
  | some callee =>
    refine look_bind_eq (Handle.field?_handle _) ?_
    cases hproperty : callee.field? .property with
    | none =>
      rw [Option.bind_some, hproperty]
      rfl
    | some property =>
      have hwithin := (hp.field? (Option.filter_eq_some_iff.mp hcallee).1).field? hproperty
      refine look_bind_eq (Handle.text_handle hd hwithin) ?_
      rw [Option.bind_some, hproperty]
      rfl

theorem argumentText_handle (hd : d.Legible) (hp : p.Within d.root) :
    (d.handle p).argumentText d = .ok (d.argumentText p) := by
  refine look_bind_eq (Handle.field?_handle _) ?_
  unfold Document.argumentText
  cases hlist : p.field? .arguments with
  | none => rfl
  | some list => exact look_bind_eq (Handle.text_handle hd (hp.field? hlist)) rfl

theorem literalExpectation?_handle : literalExpectation? (d.handle p) d = .ok p.literal? := by
  refine look_bind_eq (Handle.field?_handle _) ?_
  unfold Place.literal?
  cases p.field? .arguments with
  | none => rfl
  | some list =>
    refine look_bind_eq Handle.namedChildren_handle ?_
    dsimp only
    rcases list.namedChildren with _ | ⟨argument, _ | ⟨second, rest⟩⟩
    · rfl
    · refine look_bind_eq Handle.kind_handle ?_
      dsimp only
      cases argument.node.kind <;> rfl
    · rfl

theorem expectation?_handle (hd : d.Legible) (hp : p.Within d.root) :
    expectation? (d.handle p) d = .ok (d.expectation? p) := by
  have hbare : ∀ present : Bool, (do
      return if (← (d.handle p).argumentText) == "" then some present else none :
        Looking (Option Bool)) d = .ok (if d.argumentText p == "" then some present else none) :=
    fun present => look_bind_eq (argumentText_handle hd hp) rfl
  refine look_bind_eq (methodName?_handle hd hp) ?_
  unfold Document.expectation?
  generalize d.method? p = name
  cases name with
  | none => rfl
  | some name =>
    by_cases hbe : name = "toBe"
    · subst hbe
      exact literalExpectation?_handle
    by_cases hequal : name = "toEqual"
    · subst hequal
      exact literalExpectation?_handle
    by_cases htruthy : name = "toBeTruthy"
    · subst htruthy
      exact hbare true
    by_cases hfalsy : name = "toBeFalsy"
    · subst hfalsy
      exact hbare false
    have hother : (pure none : Looking (Option Bool)) d = .ok none := rfl
    simpa [hbe, hequal, htruthy, hfalsy] using hother

/-! ## What the passes build -/

/-- What an assertion is about. -/
inductive Topic where
  | text
  | presence

/-- The matchers that may assert it. -/
def Topic.matchers : Topic → List String
  | .text => textMatchers
  | .presence => presenceMatchers

/-- Calls of these matchers. -/
def Topic.pattern (topic : Topic) : Pattern := .methodCall (.oneOf topic.matchers)

def Topic.build : Topic → Handle → Looking (Option Text)
  | .text => textContent?
  | .presence => presence?

/-- The pass that converts the assertions. -/
def Topic.convert : Topic → Pass Nat
  | .text => convertText
  | .presence => convertPresence

/-- The matcher call asserts it. -/
def Topic.asserts : Topic → Document → Place → Bool
  | .text => Document.assertsText
  | .presence => Document.assertsPresence

variable {topic : Topic}

theorem Topic.plain_build (topic : Topic) (a : Handle) : Plain (topic.build a) := by
  cases topic with
  | text => exact plain_textContent? a
  | presence => exact plain_presence? a

/-- The edits of the pass. -/
def Topic.edit (topic : Topic) : Editing Nat := do
  (← (MatchSet.ofTree topic.pattern : Looking _)).replaceWith topic.build

theorem Topic.convert_eq (topic : Topic) : topic.convert = Pass.lift topic.edit := by
  cases topic <;> rfl

theorem Topic.made_edit (topic : Topic) : Made topic.edit :=
  MatchSet.made_ofTree_bind (Pattern.quiet_methodCall _ (by simp)) fun set hs =>
    set.made_replaceWith hs topic.plain_build

theorem Topic.idles_convert (topic : Topic) : Pass.Idles topic.convert fun d n =>
    Exhausted topic.pattern topic.build d ∧ n = 0 := by
  cases topic with
  | text => exact idles_convertText
  | presence => exact idles_convertPresence

theorem expectArgument?_of_expects (hd : d.Legible) (hp : p.Within d.root)
    (hinner : ∀ q : Place, q.Within d.root → inner.holdsOf (d.handle q) d = .ok (holds q))
    (h : d.expects holds p = true) :
    ∃ argument, expectArgument? (some (d.handle p)) inner d = .ok (some argument) := by
  rw [expectArgument?_handle hd hp hinner, if_pos h]
  unfold Document.expects at h
  cases hall : p.callArguments with
  | nil => simp [hall] at h
  | cons argument rest => exact ⟨_, rfl⟩

theorem within_denied? (hp : p.Within d.root) (hq : d.denied? p = some q) : q.Within d.root := by
  unfold Document.denied? at hq
  split at hq
  · obtain ⟨property, -, hq⟩ := Option.bind_eq_some_iff.mp hq
    split at hq
    · exact hp.field? hq
    · cases hq
  · cases hq

theorem textContent?_handle (hd : d.Legible) (hp : p.Within d.root) :
    (d.assertsText p = false → textContent? (d.handle p) d = .ok none) ∧
      (d.assertsText p = true → textContent? (d.handle p) d ≠ .ok none) := by
  have hcalls : ∀ q : Place, q.Within d.root →
      textCall.holdsOf (d.handle q) d = .ok (d.callsBare (.exactly "text") q) := fun q hq => Document.holdsOf_bare hd hq _
  unfold Document.assertsText
  cases hq : p.subject? with
  | none =>
    refine ⟨fun _ => look_bind_eq subject?_handle ?_, nofun⟩
    rw [hq]
    rfl
  | some q =>
    have hwithin := hp.subject? hq
    rw [Option.any_some]
    constructor
    · intro hnone
      refine look_bind_eq subject?_handle ?_
      rw [hq]
      refine look_bind_eq (expectArgument?_handle hd hwithin hcalls) ?_
      rw [hnone]
      rfl
    · intro hexpects hbuilt
      obtain ⟨argument, hargument⟩ := expectArgument?_of_expects hd hwithin hcalls hexpects
      unfold textContent? at hbuilt
      rw [look_bind_of_ok subject?_handle, hq] at hbuilt
      dsimp only [Option.map_some] at hbuilt
      rw [look_bind_of_ok hargument] at hbuilt
      obtain ⟨subject, -, hbuilt⟩ := looks_bind hbuilt
      obtain ⟨text, -, hbuilt⟩ := looks_bind hbuilt
      cases hbuilt

theorem restated?_handle (hd : d.Legible) (hp : p.Within d.root) (present : Bool) :
    (d.expects (d.callsBare (.exactly "exists")) p = false → restated? present (d.handle p) d = .ok none) ∧
      (d.expects (d.callsBare (.exactly "exists")) p = true → restated? present (d.handle p) d ≠ .ok none) := by
  have hcalls : ∀ q : Place, q.Within d.root →
      existsCall.holdsOf (d.handle q) d = .ok (d.callsBare (.exactly "exists") q) := fun q hq => Document.holdsOf_bare hd hq _
  constructor
  · intro hnone
    refine restated?_none ((expectArgument?_handle hd hp hcalls).trans ?_)
    rw [hnone]
    rfl
  · intro hexpects hbuilt
    obtain ⟨argument, hargument⟩ := expectArgument?_of_expects hd hp hcalls hexpects
    unfold restated? at hbuilt
    rw [look_bind_of_ok hargument] at hbuilt
    obtain ⟨shown, -, hbuilt⟩ := looks_bind hbuilt
    cases hbuilt

/-- The assertion is restated about what is denied, if something is, with the expectation turned round. -/
theorem presence?_subject (hd : d.Legible) (hp : p.Within d.root) {expected : Bool}
    (hexpected : d.expectation? p = some expected) (hq : p.subject? = some q) :
    ∃ present, presence? (d.handle p) d = restated? present (d.handle ((d.denied? q).getD q)) d := by
  unfold presence?
  rw [look_bind_of_ok (expectation?_handle hd hp), hexpected]
  dsimp only
  rw [look_bind_of_ok subject?_handle, hq]
  dsimp only [Option.map_some]
  rw [look_bind_of_ok (denied?_handle hd (hp.subject? hq))]
  cases d.denied? q with
  | none => exact ⟨expected, rfl⟩
  | some inner => exact ⟨!expected, rfl⟩

theorem presence?_handle (hd : d.Legible) (hp : p.Within d.root) :
    (d.assertsPresence p = false → presence? (d.handle p) d = .ok none) ∧
      (d.assertsPresence p = true → presence? (d.handle p) d ≠ .ok none) := by
  unfold Document.assertsPresence
  cases hexpected : d.expectation? p with
  | none =>
    refine ⟨fun _ => look_bind_eq (expectation?_handle hd hp) ?_, nofun⟩
    rw [hexpected]
    rfl
  | some expected =>
    cases hq : p.subject? with
    | none =>
      refine ⟨fun _ => look_bind_eq (expectation?_handle hd hp) ?_, nofun⟩
      rw [hexpected]
      refine look_bind_eq subject?_handle ?_
      rw [hq]
      rfl
    | some q =>
      obtain ⟨present, hread⟩ := presence?_subject hd hp hexpected hq
      have hwithin : ((d.denied? q).getD q).Within d.root := by
        have hsubject := hp.subject? hq
        cases hinner : d.denied? q with
        | none => exact hsubject
        | some inner => exact within_denied? hsubject hinner
      rw [hread]
      exact restated?_handle hd hwithin present

/-- A text is built for the matcher calls that assert the topic, and for no others. -/
theorem Topic.build_handle (topic : Topic) (hd : d.Legible) (hp : p.Within d.root) :
    (topic.asserts d p = false → topic.build (d.handle p) d = .ok none) ∧
      (topic.asserts d p = true → topic.build (d.handle p) d ≠ .ok none) := by
  cases topic with
  | text => exact textContent?_handle hd hp
  | presence => exact presence?_handle hd hp

/-! ## The count -/

/-- The assertions of the topic in the document. -/
def Topic.asserted (topic : Topic) (d : Document) : List Place :=
  (d.found (d.callsMethod (.oneOf topic.matchers))).filter (topic.asserts d)

/-- The edit puts what is built for the assertion in its place. -/
def Topic.Restates (topic : Topic) (d : Document) (p : Place) (e : Edit) : Prop :=
  ∃ t s, topic.build (d.handle p) d = .ok (some t) ∧ t.toString? = some s ∧
    e.Puts p.node.start p.node.stop s

theorem Topic.findAll_pattern (topic : Topic) (hd : d.Legible) : findAll topic.pattern d =
    .ok ((d.found (d.callsMethod (.oneOf topic.matchers))).map d.handle) := by
  refine Document.findAll_eq fun p hp => ?_
  have hall : Pattern.leadingHold none (p.callArguments.map d.handle) d = .ok true := rfl
  refine (@holdsOf_methodCall _ _ _ hd (Document.within_of_mem_places hp) none none true hall).trans ?_
  rw [Pattern.countHolds, Bool.and_true, Bool.and_true]

theorem Topic.within_asserted (hp : p ∈ topic.asserted d) : p.Within d.root :=
  Document.within_found (List.mem_of_mem_filter hp)

/-- The calls found differ in their ranges, for they do not differ in their kind. -/
theorem Topic.nodup_ranges (topic : Topic) (d : Document) :
    ((d.found (d.callsMethod (.oneOf topic.matchers))).map (·.node.range)).Nodup := by
  unfold Document.found
  rw [List.map_map]
  refine List.pairwise_map.mpr ((distinct_pairwise _).imp_of_mem ?_)
  intro a b ha hb hdiffer hranges
  obtain ⟨p, -, hp, rfl⟩ := mem_found ha
  obtain ⟨q, -, hq, rfl⟩ := mem_found hb
  have hkind : ∀ {p : Place}, d.callsMethod (.oneOf topic.matchers) p = true →
      p.node.kind = .callExpression :=
    fun hcalls => beq_iff_eq.mp (Bool.and_eq_true_iff.mp hcalls).1
  obtain ⟨hstart, hstop⟩ := Prod.mk.inj hranges
  refine absurd hdiffer ?_
  change p.node.start = q.node.start at hstart
  change p.node.stop = q.node.stop at hstop
  simp [Handle.same, Document.handle, hstart, hstop, hkind hp, hkind hq]

/-- What a pass over assertions makes of a document: it counts the assertions, and it applies edits that
restate them, one for each as long as none overlaps another. -/
structure Topic.Converts (topic : Topic) (d d' : Document) (n : Nat) (applied : List Edit) : Prop where
  count : n = (topic.asserted d).length
  text : d'.source = Edit.splice d.source 0 applied
  fit : Edit.Fit d.source applied
  only : ∀ e ∈ applied, ∃ p ∈ topic.asserted d, topic.Restates d p e
  each : ∀ p ∈ topic.asserted d, (∃ e ∈ applied, topic.Restates d p e) ∨
    ∃ e ∈ applied, e.start ≤ p.node.start ∧ p.node.start < e.stop
  bounded : applied.length ≤ n
  truthful : applied.length = n ↔
    (topic.asserted d).Pairwise fun p q => p.node.range.Apart q.node.range
  complete : applied.length = n → ∀ p ∈ topic.asserted d, ∃ e ∈ applied, topic.Restates d p e

theorem Topic.converts_handle (hd : d.Legible) (hp : p.Within d.root)
    (hbuilt : ∃ text, topic.build (d.handle p) d = .ok text) :
    d.converts topic.build (d.handle p) = topic.asserts d p := by
  obtain ⟨text, htext⟩ := hbuilt
  obtain ⟨hnone, hsome⟩ := topic.build_handle hd hp
  unfold Document.converts
  cases hasserts : topic.asserts d p with
  | false => rw [hnone hasserts]
  | true =>
    rw [htext]
    cases text with
    | none => exact absurd htext (hsome hasserts)
    | some t => rfl

section

variable {d' : Document} {n : Nat}

/-- The edits recorded are those of the assertions, in their order. -/
theorem Topic.edit_records (topic : Topic) (closed : d.batch = none) (hd : d.Legible)
    (h : topic.edit d = .ok n d') : ∃ b : Batch, d'.source = b.outcome d.source ∧
      (∀ e ∈ b.edits, e.start ≤ e.stop ∧ e.stop ≤ d.source.size) ∧
      n = (topic.asserted d).length ∧
      b.edits.map Edit.range = (topic.asserted d).map (·.node.range) ∧
      (∀ e ∈ b.edits, ∃ p ∈ topic.asserted d, topic.Restates d p e) ∧
      ∀ p ∈ topic.asserted d, ∃ e ∈ b.edits, topic.Restates d p e := by
  obtain ⟨found, b, counts, hfound, hrecords, hn, hsource⟩ :=
    replaceAll_records topic.plain_build closed h
  rw [topic.findAll_pattern hd] at hfound
  cases hfound
  have hmade := made_stepwise.mapM (Handle.made_replaceBy topic.plain_build)
    ((d.found (d.callsMethod (.oneOf topic.matchers))).map d.handle)
  have hreplaces := records_replaceEach topic.plain_build hrecords rfl
  have hnodup : (((Batch.open' d.generation).edits.map Edit.range) ++
      ((d.found (d.callsMethod (.oneOf topic.matchers))).map d.handle).map (·.place.node.range)).Nodup := by
    rw [List.map_map]
    exact topic.nodup_ranges d
  obtain ⟨hranges, hcount⟩ := records_replaceEach_counts topic.plain_build hrecords hnodup
  have hfilter : ((d.found (d.callsMethod (.oneOf topic.matchers))).map d.handle).filter
      (d.converts topic.build) = (topic.asserted d).map d.handle := by
    rw [List.filter_map]
    refine congrArg _ (List.filter_congr fun p hp => ?_)
    obtain ⟨text, htext, -⟩ := hreplaces.each (d.handle p) (List.mem_map_of_mem hp)
    exact Topic.converts_handle hd (Document.within_found hp) ⟨text, htext⟩
  rw [hfilter] at hranges hcount
  rw [List.map_map] at hranges
  rw [List.length_map] at hcount
  refine ⟨b, hsource, hrecords.inside hmade nofun, hn.trans hcount, hranges, ?_, ?_⟩
  · intro e he
    obtain ⟨a, ha, t, text, hbuilt, htext, hputs⟩ := hreplaces.only e he
    obtain ⟨p, hp, rfl⟩ := List.mem_map.mp ha
    refine ⟨p, List.mem_filter.mpr ⟨hp, ?_⟩, t, text, hbuilt, htext, hputs⟩
    rw [← Topic.converts_handle hd (Document.within_found hp) ⟨_, hbuilt⟩]
    unfold Document.converts
    rw [hbuilt]
  · intro p hp
    obtain ⟨hlisted, hasserts⟩ := List.mem_filter.mp hp
    obtain ⟨text, hbuilt, hputs⟩ := hreplaces.each (d.handle p) (List.mem_map_of_mem hlisted)
    cases text with
    | none => exact absurd hbuilt ((topic.build_handle hd (Topic.within_asserted hp)).2 hasserts)
    | some t =>
      obtain ⟨text, htext, e, he, hputs⟩ := hputs t rfl
      exact ⟨e, he, t, text, hbuilt, htext, hputs⟩

theorem Topic.edit_converts (topic : Topic) (closed : d.batch = none) (hd : d.Worded)
    (h : topic.edit d = .ok n d') : d'.Worded ∧ ∃ applied, topic.Converts d d' n applied := by
  obtain ⟨b, hsource, hinside, hn, hranges, honly, heach⟩ := topic.edit_records closed hd.legible h
  have hedits : b.edits.length = n := by
    have hlengths := congrArg List.length hranges
    rw [List.length_map, List.length_map] at hlengths
    exact hlengths.trans hn.symm
  have hlength := b.length_settled
  have hall : b.settled.1.length = n ↔ b.settled.2 = [] := by
    rw [← List.length_eq_zero_iff]
    omega
  refine ⟨topic.made_edit.worded hd h hsource ?_, b.settled.1, hn, hsource, Batch.fit_settled hinside,
    fun e he => honly e (Batch.mem_of_applied he), fun p hp => ?_, by omega, ?_, ?_⟩
  · intro e he
    obtain ⟨p, hp, t, text, -, -, hputs⟩ := honly e (Batch.mem_of_applied he)
    exact hd.neat_of_puts (Topic.within_asserted hp) hputs
  · obtain ⟨e, he, hrestates⟩ := heach p hp
    have hstart : e.start = p.node.start := by
      obtain ⟨t, text, -, -, hputs⟩ := hrestates
      exact hputs.1
    exact (Batch.applied_or_inside he hstart).imp_left fun happlied => ⟨e, happlied, hrestates⟩
  · rw [hall, Batch.settled_all_iff fun e he => (hinside e he).1,
      ← List.pairwise_map (f := Edit.range), hranges, List.pairwise_map]
  · intro happlied p hp
    obtain ⟨e, he, hrestates⟩ := heach p hp
    refine ⟨e, (Batch.applied_or_deferred he).resolve_right ?_, hrestates⟩
    rw [hall.mp happlied]
    exact List.not_mem_nil

end

/-- A pass has nothing to do, and changes nothing, where nothing of its topic is asserted. -/
theorem Topic.converts_none_iff (topic : Topic) {s : Session} (closed : s.document.batch = none)
    (hd : s.document.Worded) :
    (∃ s', topic.convert s = .ok 0 s') ↔ topic.asserted s.document = [] := by
  constructor
  · rintro ⟨s', h⟩
    rw [topic.convert_eq] at h
    obtain ⟨d', hedit, -⟩ := Pass.lift_ok h
    obtain ⟨-, applied, hconverts⟩ := topic.edit_converts closed hd hedit
    exact List.length_eq_zero_iff.mp hconverts.count.symm
  · intro hnone
    have hexhausted : Exhausted topic.pattern topic.build s.document := by
      refine ⟨_, topic.findAll_pattern hd.legible, fun a ha => ?_⟩
      obtain ⟨p, hp, rfl⟩ := List.mem_map.mp ha
      refine (topic.build_handle hd.legible (Document.within_found hp)).1 ?_
      rw [← Bool.not_eq_true]
      intro hasserts
      have hmem : p ∈ topic.asserted s.document := List.mem_filter.mpr ⟨hp, hasserts⟩
      rw [hnone] at hmem
      cases hmem
    obtain ⟨s', hrun, -⟩ := (topic.idles_convert.stays s 0 closed).mpr ⟨hexhausted, rfl⟩
    exact ⟨s', hrun⟩

/-- The pass yields the number of assertions that it has replaced if and only if no two of them overlap,
and a second run yields nothing if and only if none is left. -/
theorem Topic.convert_counts (topic : Topic) {path file : Option String} {source : String}
    {s : Session} {n : Nat} (hd : Document.ofString path source = .ok d)
    (h : topic.convert ⟨d, file, []⟩ = .ok n s) :
    (∃ applied, topic.Converts d s.document n applied) ∧
      ((∃ s', topic.convert s = .ok 0 s') ↔ topic.asserted s.document = []) := by
  have hclosed : d.batch = none := (Document.sound_of_ofBytes hd).2
  rw [topic.convert_eq] at h
  have hleft : s.document.batch = none := (Pass.programmed_lift topic.made_edit).closed h hclosed
  obtain ⟨d', hedit, rfl⟩ := Pass.lift_ok h
  obtain ⟨hworded, hconverts⟩ := topic.edit_converts hclosed (Document.worded_ofString hd) hedit
  exact ⟨hconverts, topic.converts_none_iff hleft hworded⟩

theorem Topic.convert_counts_one :
    ∃ d s, Document.ofString none "expect(a.text()).toBe(1)" = .ok d ∧
      Topic.text.convert ⟨d, none, []⟩ = .ok 1 s ∧
      s.document.source = "expect(a).toHaveTextContent(1)".toUTF8 ∧
      (∃ applied, Topic.text.Converts d s.document 1 applied) ∧
      ∃ s', Topic.text.convert s = .ok 0 s' := by
  have hrun : Topic.text.convert.onScript? "expect(a.text()).toBe(1)"
      (fun _ n s => (n, spelledBy ["expect(a).toHaveTextContent(1)"] s.document.source,
        (Topic.text.asserted s.document).length)) = some (1, true, 0) := by decide +kernel
  obtain ⟨d, n, s, hd, hrun, hobserved⟩ := Pass.exists_of_onScript? hrun
  obtain ⟨rfl, hothers⟩ := Prod.mk.inj hobserved
  obtain ⟨hspelled, hleft⟩ := Prod.mk.inj hothers
  obtain ⟨hconverts, hagain⟩ := Topic.text.convert_counts hd hrun
  exact ⟨d, s, hd, hrun, eq_of_spelledBy hspelled, hconverts, hagain.mpr (List.length_eq_zero_iff.mp hleft)⟩

/-- Two assertions are counted, and one of them is left. -/
theorem Topic.nested_assertion_left :
    ∃ d s s', Document.ofString none
        "expect(a.map(()=>expect(b.text()).toBe(1)).text()).toBe(2)" = .ok d ∧
      Topic.text.convert ⟨d, none, []⟩ = .ok 2 s ∧
      s.document.source =
        "expect(a.map(()=>expect(b.text()).toBe(1))).toHaveTextContent(2)".toUTF8 ∧
      Topic.text.asserted s.document ≠ [] ∧ Topic.text.convert s = .ok 1 s' := by
  have hrun : Topic.text.convert.onScript?
      "expect(a.map(()=>expect(b.text()).toBe(1)).text()).toBe(2)"
      (fun _ n s => (n, spelledBy ["expect(a.map(()=>expect(b.text()).toBe(1))).toHaveTextContent(2)"]
        s.document.source, (Topic.text.asserted s.document).length, (Topic.text.convert.yield? s).map (·.1))) =
      some (2, true, 1, some 1) := by
    decide +kernel
  obtain ⟨d, n, s, hd, hrun, hobserved⟩ := Pass.exists_of_onScript? hrun
  simp only [Prod.mk.injEq, Option.map_eq_some_iff] at hobserved
  obtain ⟨rfl, hspelled, hleft, ⟨m, text⟩, hagain, rfl⟩ := hobserved
  obtain ⟨s', hagain, -⟩ := Pass.exists_of_yield? hagain
  refine ⟨d, s, s', hd, hrun, eq_of_spelledBy hspelled, fun hnone => ?_, hagain⟩
  rw [hnone] at hleft
  cases hleft

end Assertion

end TestMigration
