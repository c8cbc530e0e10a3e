import TestMigration.Proofs.Bindings
import TestMigration.Proofs.Modern
import TestMigration.Proofs.Worded

/-! What the resolver sees. Variables come into being in declarations and are set in assignments; what
the resolver asks of these is answered at their places in the tree, and each of its tests is a property
of the places of a name and a value. -/

namespace TestMigration

open Script (Node Kind Field Place)

/-! ## Names and values -/

namespace Script.Place

/-- The declarators of a declaration. -/
def declarators (p : Place) : List Place := p.namedChildren.filter (·.node.kind == .variableDeclarator)

/-- Name and value of a declarator, or of whatever has such parts. -/
def nameAndValue? (p : Place) : Option (Place × Place) :=
  match p.field? .name, p.field? .value with
  | some name, some value => some (name, value)
  | _, _ => none

/-- Name and value of a declaration of one variable that is not exported. -/
def binding? (p : Place) : Option (Place × Place) :=
  match p.parent? with
  | none => none
  | some parent =>
    if parent.node.kind == .exportStatement then none
    else match p.declarators with
      | [declarator] => declarator.nameAndValue?
      | _ => none

/-- Both sides of an assignment. -/
def sides? (p : Place) : Option (Place × Place) :=
  match p.field? .left, p.field? .right with
  | some left, some right => some (left, right)
  | _, _ => none

variable {root : Node} {p left right : Place}

theorem Within.subject? (hp : p.Within root) (h : p.subject? = some left) : left.Within root := by
  obtain ⟨callee, hcallee, hobject⟩ := Option.bind_eq_some_iff.mp h
  exact (hp.field? hcallee).field? hobject

theorem Within.sides? (hp : p.Within root) (h : p.sides? = some (left, right)) :
    left.Within root ∧ right.Within root := by
  unfold Place.sides? at h
  split at h
  · rename_i hleft hright
    cases h
    exact ⟨hp.field? hleft, hp.field? hright⟩
  · cases h

theorem Within.nameAndValue? (hp : p.Within root) (h : p.nameAndValue? = some (left, right)) :
    left.Within root ∧ right.Within root := by
  unfold Place.nameAndValue? at h
  split at h
  · rename_i hleft hright
    cases h
    exact ⟨hp.field? hleft, hp.field? hright⟩
  · cases h

theorem Within.declarator {q : Place} (hp : p.Within root) (hq : q ∈ p.declarators) : q.Within root :=
  hp.namedChildren (List.mem_of_mem_filter hq)

theorem Within.binding? (hp : p.Within root) (h : p.binding? = some (left, right)) :
    left.Within root ∧ right.Within root := by
  unfold Place.binding? at h
  split at h
  · cases h
  · split at h
    · cases h
    · split at h
      · rename_i declarator hone
        exact (hp.declarator (by rw [hone]; exact List.mem_singleton_self _)).nameAndValue? h
      · cases h

end Script.Place

namespace Document

/-- What a search of the tree finds: of the nodes that pass a test, those of one kind and range once. -/
def found (d : Document) (test : Place → Bool) : List Place :=
  (MatchSet.distinct ((d.places.filter test).map d.handle)).map (·.place)

/-- The declarations of variables. -/
def declarations (d : Document) : List Place :=
  d.found fun p => [Kind.lexicalDeclaration, .variableDeclaration].contains p.node.kind

def assignments (d : Document) : List Place := d.found (·.node.kind == .assignmentExpression)

variable {d : Document} {p : Place} {test : Place → Bool}

theorem mem_found (hp : p ∈ d.found test) : p ∈ d.places ∧ test p = true := by
  obtain ⟨h, hh, rfl⟩ := List.mem_map.mp hp
  obtain ⟨q, hq, htest, rfl⟩ := TestMigration.mem_found hh
  exact ⟨hq, htest⟩

theorem within_found (hp : p ∈ d.found test) : p.Within d.root := within_of_mem_places (mem_found hp).1

theorem findAll_eq {pattern : Pattern}
    (h : ∀ p ∈ d.places, pattern.holdsOf (d.handle p) d = .ok (test p)) :
    findAll pattern d = .ok ((d.found test).map d.handle) := by
  refine (found_eq h).trans (congrArg Except.ok ?_)
  unfold found
  rw [List.map_map]
  -- a handle that is found is the handle on its place
  have hself : ∀ h ∈ MatchSet.distinct ((d.places.filter test).map d.handle),
      (d.handle ∘ Handle.place) h = id h := by
    intro h hh
    obtain ⟨p, -, -, rfl⟩ := TestMigration.mem_found hh
    rfl
  rw [List.map_congr_left hself, List.map_id]

theorem holdsOf_ofKinds (hd : d.Legible) (hp : p.Within d.root) (kinds : List Kind) :
    (Pattern.ofKinds kinds).holdsOf (d.handle p) d = .ok (kinds.contains p.node.kind) := by
  refine (Pattern.holdsOf_handle hd hp (Pattern.fieldsHold_nil _) rfl rfl).trans ?_
  simp only [Pattern.countHolds, Option.all_some, Option.all_none, Bool.and_true]

theorem findAll_declarations (hd : d.Legible) :
    findAll Wrapper.declarationKinds d = .ok (d.declarations.map d.handle) :=
  findAll_eq fun _ hp => holdsOf_ofKinds hd (within_of_mem_places hp) _

theorem findAll_assignments (hd : d.Legible) :
    findAll (.ofKind .assignmentExpression) d = .ok (d.assignments.map d.handle) := by
  refine findAll_eq fun p hp => (holdsOf_ofKinds hd (within_of_mem_places hp) _).trans ?_
  rw [contains_singleton]

/-- A call without arguments of a method of whose name the test holds. -/
def callsBare (d : Document) (test : TextTest) (p : Place) : Bool :=
  d.callsMethod test p && p.callArguments.isEmpty

theorem holdsOf_bare (hd : d.Legible) (hp : p.Within d.root) (test : TextTest) :
    ((Pattern.methodCall test).withCount 0).holdsOf (d.handle p) d = .ok (d.callsBare test p) := by
  have hall : Pattern.leadingHold none (p.callArguments.map d.handle) d = .ok true := rfl
  refine (@holdsOf_methodCall _ _ _ hd hp none (some 0) true hall).trans ?_
  unfold callsBare Pattern.countHolds
  rw [Bool.and_true]
  cases p.callArguments <;> rfl

/-! ## Tests of a name and a value -/

/-- A call, perhaps awaited, of `callee` if one is given. -/
def isCall (d : Document) (callee : Option String) (p : Place) : Bool :=
  (Handle.awaitedIn p.above p.node).any fun inner =>
    inner.node.kind == .callExpression && callee.all fun name =>
      (inner.field? .callee).any fun function =>
        function.node.kind == .identifier && d.wording function.node == name

/-- A plain name for what a call of the function returns. -/
def holdsResult (d : Document) (function : String) (name value : Place) : Bool :=
  name.node.kind == .identifier && d.isCall (some function) value

/-- The function's own name, whatever call it holds. -/
def isNamesake (d : Document) (function : String) (name value : Place) : Bool :=
  name.node.kind == .identifier && (d.wording name.node == function && d.isCall none value)

/-- A namesake, or a pattern around a call of the function. -/
def givesWay (d : Document) (function : String) (name value : Place) : Bool :=
  d.isNamesake function name value ||
    (name.node.kind == .objectPattern && d.isCall (some function) value)

/-- An assignment to the function's own name, whatever call it holds. -/
def isAssigned (d : Document) (function : String) (left right : Place) : Bool :=
  d.wording left.node == function && d.isCall none right

/-- The declarator has no value, and its name is among `names`. -/
def isUninitialised (d : Document) (names : List String) (declarator : Place) : Bool :=
  (declarator.field? .value).isNone &&
    (declarator.field? .name).any fun name => names.contains (d.wording name.node)

end Document

/-- In the document a test of a name and a value answers what is true of their places. -/
def Document.Reflects (d : Document) (test : Handle → Handle → Looking Bool) (holds : Place → Place → Bool) : Prop :=
  ∀ p q : Place, p.Within d.root → q.Within d.root →
    test (d.handle p) (d.handle q) d = .ok (holds p q)

namespace Wrapper

variable {d : Document} {p q : Place} {function : String}

theorem parent?_handle : (d.handle p).parent? d = .ok (p.parent?.map d.handle) := by
  refine look_bind_eq Handle.fresh_handle ?_
  cases p.parent? <;> rfl

theorem awaited?_handle :
    (d.handle p).awaited? d = .ok ((Handle.awaitedIn p.above p.node).map d.handle) := by
  refine look_bind_eq Handle.fresh_handle ?_
  cases Handle.awaitedIn p.above p.node <;> rfl

theorem declarators_handle : declarators (d.handle p) d = .ok (p.declarators.map d.handle) := by
  refine look_bind_eq Handle.namedChildren_handle ?_
  refine (filterM_eq (g := fun h : Handle => h.place.node.kind == .variableDeclarator) ?_).trans ?_
  · intro h hh
    obtain ⟨q, -, rfl⟩ := List.mem_map.mp hh
    exact look_bind_eq Handle.kind_handle rfl
  · rw [List.filter_map]
    rfl

theorem binding?_handle : binding? (d.handle p) d =
    .ok (p.binding?.map fun b => (d.handle b.1, d.handle b.2)) := by
  unfold binding? Place.binding?
  refine look_bind_eq parent?_handle ?_
  cases p.parent? with
  | none => rfl
  | some parent =>
    refine look_bind_eq Handle.kind_handle ?_
    dsimp only
    cases parent.node.kind == Kind.exportStatement with
    | true => rfl
    | false =>
      refine look_bind_eq declarators_handle ?_
      rcases p.declarators with _ | ⟨declarator, _ | ⟨second, rest⟩⟩
      · rfl
      · refine look_bind_eq (Handle.field?_handle _) (look_bind_eq (Handle.field?_handle _) ?_)
        change _ = Except.ok (declarator.nameAndValue?.map _)
        unfold Place.nameAndValue?
        cases declarator.field? .name <;> cases declarator.field? .value <;> rfl
      · rfl

theorem isCall_handle (hd : d.Legible) (hp : p.Within d.root) (callee : Option String) :
    isCall (d.handle p) callee d = .ok (d.isCall callee p) := by
  refine look_bind_eq awaited?_handle ?_
  unfold Document.isCall
  cases hinner : Handle.awaitedIn p.above p.node with
  | none => rfl
  | some inner =>
    rw [Option.any_some]
    refine look_bind_eq Handle.kind_handle ?_
    cases hkind : inner.node.kind == Kind.callExpression with
    | false => rw [bne, hkind]; rfl
    | true =>
      rw [bne, hkind]
      cases callee with
      | none => rfl
      | some name =>
        refine look_bind_eq (Handle.field?_handle _) ?_
        rw [Option.all_some]
        cases hfunction : inner.field? .callee with
        | none => rfl
        | some function =>
          have hwithin := (Place.Within.awaitedIn p.node p.above hp inner hinner).field? hfunction
          refine look_bind_eq Handle.kind_handle (look_bind_eq (Handle.text_handle hd hwithin) rfl)

theorem isIdentifier_handle : isIdentifier (d.handle p) d = .ok (p.node.kind == .identifier) :=
  look_bind_eq Handle.kind_handle rfl

theorem reflects_holdsResult (hd : d.Legible) (function : String) :
    Document.Reflects d (holdsResult function) (d.holdsResult function) := by
  intro p q hp hq
  unfold Document.holdsResult
  refine look_bind_eq isIdentifier_handle ?_
  cases p.node.kind == Kind.identifier with
  | false => rfl
  | true => exact isCall_handle hd hq (some function)

theorem reflects_isNamesake (hd : d.Legible) (function : String) :
    Document.Reflects d (isNamesake function) (d.isNamesake function) := by
  intro p q hp hq
  unfold Document.isNamesake
  refine look_bind_eq isIdentifier_handle ?_
  cases p.node.kind == Kind.identifier with
  | false => rfl
  | true =>
    refine look_bind_eq (Handle.text_handle hd hp) ?_
    cases d.wording p.node == function with
    | false => rfl
    | true => exact isCall_handle hd hq none

theorem reflects_givesWay (hd : d.Legible) (function : String) :
    Document.Reflects d (givesWay function) (d.givesWay function) := by
  intro p q hp hq
  unfold Document.givesWay
  refine look_bind_eq (reflects_isNamesake hd function p q hp hq) ?_
  cases d.isNamesake function p q with
  | true => rfl
  | false =>
    refine look_bind_eq Handle.kind_handle ?_
    cases p.node.kind == Kind.objectPattern with
    | false => rfl
    | true => exact isCall_handle hd hq (some function)

theorem reflects_isAssigned (hd : d.Legible) (function : String) :
    Document.Reflects d (isAssigned function) (d.isAssigned function) := by
  intro p q hp hq
  unfold Document.isAssigned
  refine look_bind_eq (Handle.text_handle hd hp) ?_
  cases d.wording p.node == function with
  | false => rfl
  | true => exact isCall_handle hd hq none

theorem isUninitialised_handle (hd : d.Legible) (hp : p.Within d.root) (names : List String) :
    isUninitialised names (d.handle p) d = .ok (d.isUninitialised names p) := by
  unfold Document.isUninitialised
  refine look_bind_eq (Handle.field?_handle _) ?_
  cases p.field? .value with
  | some value => rfl
  | none =>
    refine look_bind_eq (Handle.field?_handle _) ?_
    cases hname : p.field? .name with
    | none => rfl
    | some name => exact look_bind_eq (Handle.text_handle hd (hp.field? hname)) rfl

/-! ## Declarations and assignments that pass a test -/

variable {test : Handle → Handle → Looking Bool} {holds : Place → Place → Bool}

/-- No declaration passes a test if and only if what the test reflects is true of none of them. -/
theorem forall_declarations (hd : d.Legible) (hreflects : d.Reflects test holds) :
    (∀ declaration name value, ¬ Declares d test declaration name value) ↔
      ∀ p ∈ d.declarations, ∀ b ∈ p.binding?, holds b.1 b.2 = false := by
  constructor
  · intro hnone p hp b hb
    rw [← Bool.not_eq_true]
    intro hholds
    have hwithin := (Document.within_found hp).binding? (Option.mem_def.mp hb)
    refine hnone (d.handle p) (d.handle b.1) (d.handle b.2) ⟨⟨_, Document.findAll_declarations hd,
      List.mem_map_of_mem hp⟩, ?_, (hreflects b.1 b.2 hwithin.1 hwithin.2).trans (by rw [hholds])⟩
    rw [binding?_handle, Option.mem_def.mp hb]
    rfl
  · intro hnone declaration name value hdeclares
    obtain ⟨all, hall, hmem⟩ := hdeclares.listed
    rw [Document.findAll_declarations hd] at hall
    cases hall
    obtain ⟨p, hp, rfl⟩ := List.mem_map.mp hmem
    have hbinds := hdeclares.binds
    rw [binding?_handle] at hbinds
    obtain ⟨b, hb, hpair⟩ := Option.map_eq_some_iff.mp (Except.ok.inj hbinds)
    cases hpair
    have hwithin := (Document.within_found hp).binding? hb
    have hpasses := hdeclares.passes
    rw [hreflects b.1 b.2 hwithin.1 hwithin.2, hnone p hp b hb] at hpasses
    cases hpasses

theorem forall_assignments (hd : d.Legible) (hreflects : d.Reflects test holds) :
    (∀ all, findAll (.ofKind .assignmentExpression) d = .ok all → ∀ a ∈ all,
      ∀ left right, a.field? .left d = .ok (some left) → a.field? .right d = .ok (some right) →
        test left right d ≠ .ok true) ↔
      ∀ p ∈ d.assignments, ∀ s ∈ p.sides?, holds s.1 s.2 = false := by
  constructor
  · intro hnone p hp s hs
    rw [← Bool.not_eq_true]
    intro hholds
    have hsides := Option.mem_def.mp hs
    have hwithin := (Document.within_found hp).sides? hsides
    unfold Place.sides? at hsides
    split at hsides
    · rename_i left right hleft hright
      cases hsides
      refine hnone _ (Document.findAll_assignments hd) (d.handle p) (List.mem_map_of_mem hp)
        (d.handle left) (d.handle right) ?_ ?_ ((hreflects _ _ hwithin.1 hwithin.2).trans (by rw [hholds]))
      · rw [Handle.field?_handle, hleft]
        rfl
      · rw [Handle.field?_handle, hright]
        rfl
    · cases hsides
  · intro hnone all hall a ha left right hleft hright hpasses
    rw [Document.findAll_assignments hd] at hall
    cases hall
    obtain ⟨p, hp, rfl⟩ := List.mem_map.mp ha
    rw [Handle.field?_handle] at hleft hright
    obtain ⟨l, hl, rfl⟩ := Option.map_eq_some_iff.mp (Except.ok.inj hleft)
    obtain ⟨r, hr, rfl⟩ := Option.map_eq_some_iff.mp (Except.ok.inj hright)
    have hsides : p.sides? = some (l, r) := by
      unfold Place.sides?
      rw [hl, hr]
    have hwithin := (Document.within_found hp).sides? hsides
    rw [hreflects l r hwithin.1 hwithin.2, hnone p hp (l, r) hsides] at hpasses
    cases hpasses

end Wrapper

end TestMigration
