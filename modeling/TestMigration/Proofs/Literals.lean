import TestMigration.Convert.Usage
import TestMigration.Migration.Discovery
import TestMigration.Proofs.Navigation

/-! How a search can fail on a script. The one failure that it does not pass by is that of a string
literal which escapes a number that is no character, and only a script with such a literal has it. -/

namespace TestMigration

open Script (Node Place)

/-! ## Answers that fail in some ways only -/

/-- An error is of one of the kinds. -/
def Among {α : Type} (K : FailureKind → Prop) (x : Except Failure α) : Prop :=
  ∀ e, x = .error e → K e.kind

section Among

variable {α β : Type} {K : FailureKind → Prop}

theorem among_stepwise : Stepwise (Except Failure) fun _ x => Among K x where
  pure := by
    intro α a e h
    cases h
  bind := by
    intro α β x next hx hn e h
    cases x with
    | error e' =>
      cases h
      exact hx e rfl
    | ok a => exact hn a e h

theorem among_throw {e : Failure} (he : K e.kind) : Among K (throw e : Except Failure α) := by
  intro e' h
  cases h
  exact he

/-- A look at one document. -/
theorem among_look_stepwise (d : Document) : Stepwise Looking fun _ l => Among K (l d) where
  pure := fun a => among_stepwise.pure a
  bind := fun hx hn => among_stepwise.bind hx fun a => hn a

theorem Among.bind {d : Document} {l : Looking α} {next : α → Looking β} (hl : Among K (l d))
    (hn : ∀ a, Among K (next a d)) : Among K ((l >>= next) d) := (among_look_stepwise d).bind hl hn

/-- What follows need only be looked at for the answer that the first part gives. -/
theorem Among.bind_ok {d : Document} {l : Looking α} {next : α → Looking β} (hl : Among K (l d))
    (hn : ∀ a, l d = .ok a → Among K (next a d)) : Among K ((l >>= next) d) := by
  intro e h
  change (l d).bind (fun a => next a d) = .error e at h
  cases hla : l d with
  | error e' =>
    rw [hla] at h
    cases h
    exact hl e hla
  | ok a =>
    rw [hla] at h
    exact hn a hla e h

end Among

/-! ## Looks of a search -/

/-- A search passes such failures by. -/
def Passed (k : FailureKind) : Prop := Discovery.isPassedBy k = true

section Search

variable {d : Document} {h : Handle}

theorem passed_on (p : Place) : Among Passed (Handle.on p d) := by
  intro e he
  cases he

theorem passed_onAll (ps : List Place) : Among Passed (Handle.onAll ps d) :=
  (among_look_stepwise d).mapM passed_on ps

theorem passed_node (h : Handle) : Among Passed (h.node d) := by
  by_cases hsame : h.generation = d.generation
  · rw [Handle.node_of_current hsame]
    exact among_stepwise.pure _
  · change Among Passed ((if h.generation == d.generation then Pure.pure h.place.node else throw _ :
      Looking Node) d)
    rw [if_neg (by simpa using hsame)]
    exact among_throw rfl

theorem passed_fresh (h : Handle) : Among Passed (h.fresh d) :=
  (passed_node h).bind fun _ => among_stepwise.pure _

theorem passed_kind (h : Handle) : Among Passed (h.kind d) :=
  (passed_node h).bind fun _ => among_stepwise.pure _

theorem passed_decode (bytes : ByteArray) : Among Passed (Document.decode bytes) := by
  unfold Document.decode
  split
  · exact among_stepwise.pure _
  · exact among_throw rfl

theorem passed_text (h : Handle) : Among Passed (h.text d) :=
  Among.bind (l := read) (among_stepwise.pure d) fun d' => (passed_node h).bind fun n => by
    rw [liftM_apply, Document.textOf, Document.slice]
    exact passed_decode _

theorem passed_field? (h : Handle) (f : Script.Field) : Among Passed (h.field? f d) := by
  refine (passed_fresh h).bind fun place => ?_
  cases place.field? f with
  | none => exact among_stepwise.pure _
  | some p => exact (passed_on p).bind fun _ => among_stepwise.pure _

theorem passed_namedChildren (h : Handle) : Among Passed (h.namedChildren d) :=
  (passed_fresh h).bind fun _ => passed_onAll _

theorem passed_descendants (h : Handle) : Among Passed (h.descendants d) :=
  (passed_fresh h).bind fun _ => passed_onAll _

namespace Pattern

theorem passed_kindHolds (kinds : Option (List Script.Kind)) (h : Handle) :
    Among Passed (kindHolds kinds h d) := by
  cases kinds with
  | none => exact among_stepwise.pure _
  | some kinds => exact (passed_kind h).bind fun _ => among_stepwise.pure _

theorem passed_textHolds (text : Option TextTest) (h : Handle) :
    Among Passed (textHolds text h d) := by
  cases text with
  | none => exact among_stepwise.pure _
  | some test => exact (passed_text h).bind fun _ => among_stepwise.pure _

/-- A pattern that says nothing of arguments, from its fields and its last test. -/
theorem passed_holdsOf {kinds : Option (List Script.Kind)} {text : Option TextTest}
    {fields : List (Script.Field × Pattern)} {also : Option (Handle → Looking Bool)}
    (hfields : Among Passed (fieldsHold fields h d)) (halso : Among Passed (alsoHolds also h d)) :
    Among Passed ((mk kinds text fields none none also).holdsOf h d) := by
  rw [holdsOf]
  refine (passed_kindHolds kinds h).bind fun kindly => ?_
  cases kindly with
  | false => exact among_stepwise.pure _
  | true =>
    refine (passed_textHolds text h).bind fun worded => ?_
    cases worded with
    | false => exact among_stepwise.pure _
    | true =>
      refine hfields.bind fun fielded => ?_
      cases fielded with
      | false => exact among_stepwise.pure _
      | true => exact halso

theorem passed_identifier (name : Option TextTest) (h : Handle) :
    Among Passed ((identifier name).holdsOf h d) := by
  refine passed_holdsOf ?_ (among_stepwise.pure true)
  rw [fieldsHold]
  exact among_stepwise.pure true

theorem passed_callTo (name : TextTest) (h : Handle) : Among Passed ((callTo name).holdsOf h d) := by
  refine passed_holdsOf ?_ (among_stepwise.pure true)
  rw [fieldsHold]
  refine (passed_field? h _).bind fun callee => ?_
  cases callee with
  | none => exact among_stepwise.pure _
  | some callee =>
    refine (passed_identifier _ callee).bind fun holds => ?_
    cases holds with
    | false => exact among_stepwise.pure _
    | true =>
      rw [if_pos rfl, fieldsHold]
      exact among_stepwise.pure true

end Pattern

theorem passed_moduleLiteral? (h : Handle) : Among Passed (h.moduleLiteral? d) := by
  refine (passed_field? h _).bind fun source => ?_
  cases source with
  | some literal => exact among_stepwise.pure _
  | none =>
    refine (passed_kind h).bind fun kind => ?_
    split
    · exact among_stepwise.pure _
    · exact (passed_namedChildren h).bind fun children =>
        (among_look_stepwise d).findM?
          (fun child => (passed_kind child).bind fun _ => among_stepwise.pure _) children

end Search

/-! ### Literals -/

/-- Every string literal of the script has a value. -/
def Document.spelt (d : Document) : Bool :=
  (Place.root d.root).descendants.all fun p => p.node.kind != .string ||
    (d.textOf p.node).toOption.all fun text => (Quoted.decode (text.toList.drop 1).dropLast).isOk

section Literals

variable {d : Document} {h l : Handle}

theorem moduleLiteral?_child (hfound : h.moduleLiteral? d = .ok (some l)) :
    ∃ c ∈ h.place.node.children, l = ⟨d.generation, h.place.child c⟩ := by
  obtain ⟨source, hsource, hfound⟩ := looks_bind hfound
  cases source with
  | some literal =>
    cases hfound
    obtain ⟨place, hplace, hsource⟩ := looks_bind hsource
    obtain ⟨n, -, hplace⟩ := looks_bind hplace
    cases hplace
    cases hq : h.place.field? .source with
    | none =>
      rw [hq] at hsource
      cases hsource
    | some q =>
      rw [hq] at hsource
      cases hsource
      obtain ⟨c, hc, rfl⟩ := Option.map_eq_some_iff.mp hq
      exact ⟨c, List.mem_of_find?_eq_some hc, rfl⟩
  | none =>
    obtain ⟨kind, -, hfound⟩ := looks_bind hfound
    split at hfound
    · cases hfound
    · obtain ⟨children, hchildren, hfound⟩ := looks_bind hfound
      obtain ⟨place, hplace, hchildren⟩ := looks_bind hchildren
      obtain ⟨n, -, hplace⟩ := looks_bind hplace
      cases hplace
      obtain ⟨q, hq, rfl⟩ := mem_of_onAll hchildren (mem_of_findM?_ok hfound)
      obtain ⟨c, hc, rfl⟩ := List.mem_map.mp hq
      exact ⟨c, List.mem_of_mem_filter hc, rfl⟩

/-- A literal has a value if it is one of those of a script where each has one. -/
theorem passed_literalValue? (hd : d.spelt = true)
    (hplace : h.place.node.kind = .string → h.place ∈ (Place.root d.root).descendants) :
    Among Passed (h.literalValue? d) := by
  refine (passed_kind h).bind_ok fun kind hkind => ?_
  cases hstring : kind != Script.Kind.string with
  | true => exact among_stepwise.pure _
  | false =>
    refine (passed_text h).bind_ok fun text htext => ?_
    obtain ⟨n, hn, hkind⟩ := looks_bind hkind
    cases hkind
    cases Handle.node_ok hn
    have hkind : h.place.node.kind = .string := by simpa using hstring
    have htext : d.textOf h.place.node = .ok text := by
      obtain ⟨d', hd', htext⟩ := looks_bind htext
      cases hd'
      obtain ⟨n, hn, htext⟩ := looks_bind htext
      rwa [Handle.node_ok hn, liftM_apply] at htext
    have hvalue : (Quoted.decode (text.toList.drop 1).dropLast).isOk = true := by
      simpa [hkind, htext, Except.toOption] using List.all_eq_true.mp hd _ (hplace hkind)
    cases hdecode : Quoted.decode (text.toList.drop 1).dropLast with
    | ok value => exact among_stepwise.pure _
    | error e =>
      rw [hdecode] at hvalue
      cases hvalue

theorem passed_importsFrom (hd : d.spelt = true) (module : String)
    (hplace : h.place ∈ (Place.root d.root).descendants) :
    Among Passed ((Import.importsFrom module).holdsOf h d) := by
  refine Pattern.passed_holdsOf ?_ ?_
  · rw [Pattern.fieldsHold]
    exact among_stepwise.pure true
  · refine (passed_moduleLiteral? h).bind_ok fun literal hliteral => ?_
    refine Among.bind ?_ fun _ => among_stepwise.pure _
    cases literal with
    | none => exact among_stepwise.pure _
    | some l =>
      obtain ⟨c, hc, rfl⟩ := moduleLiteral?_child hliteral
      refine passed_literalValue? hd fun hkind => ?_
      refine Place.child_mem_walk _ _ _ hplace c hc ?_
      rw [show c.kind = .string from hkind]
      rfl

/-- The first match in a tree, from what the pattern does on the places of the tree. -/
theorem passed_first? {p : Pattern}
    (hp : ∀ h : Handle, h.place ∈ (Place.root d.root).descendants → Among Passed (p.holdsOf h d)) :
    Among Passed ((do (← MatchSet.ofTree p).first? : Looking _) d) := by
  change Among Passed ((MatchSet.within [⟨d.generation, .root d.root⟩] p).first? d)
  refine Among.bind_ok ((among_look_stepwise d).mapM passed_descendants _) fun candidates hfound => ?_
  refine (among_look_stepwise d).findM?_of_mem fun h hh => hp h ?_
  obtain ⟨list, hlist, hh⟩ := List.mem_flatten.mp hh
  obtain ⟨r, hr, hdescend⟩ := mem_of_mapM_ok hfound list hlist
  cases List.mem_singleton.mp hr
  obtain ⟨place, hplace, hdescend⟩ := looks_bind hdescend
  obtain ⟨n, -, hplace⟩ := looks_bind hplace
  cases hplace
  obtain ⟨q, hq, rfl⟩ := mem_of_onAll hdescend hh
  exact hq

theorem passed_usage (hd : d.spelt = true) : Among Passed (Usage.ofDocument d) := by
  have himported : Among Passed (Import.isImported Import.legacyModule d) :=
    (passed_first? fun h hh => passed_importsFrom hd _ hh).bind fun _ => among_stepwise.pure _
  have hcalled : ∀ names : List String, Among Passed ((names.anyM fun name => do
      return (← (← MatchSet.ofTree (.callTo (.exactly name))).first?).isSome : Looking Bool) d) := by
    intro names
    induction names with
    | nil => exact among_stepwise.pure _
    | cons name rest ih =>
      refine Among.bind ((passed_first? fun h _ => Pattern.passed_callTo _ h).bind
        fun _ => among_stepwise.pure _) fun found => ?_
      cases found with
      | true => exact among_stepwise.pure _
      | false => exact ih
  exact himported.bind fun _ => (hcalled _).bind fun _ => among_stepwise.pure _

end Literals

end TestMigration
