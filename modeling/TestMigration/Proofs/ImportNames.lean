import TestMigration.Proofs.LegacyImports

/-! The names that imports bind. An import binds the name at the head of its clause, the name of its
namespace, or those of its list, of which each is the one behind `as` where there is one; an import without
a clause binds none. Names are told apart by how they are spelt. -/

namespace TestMigration

open Script (Node Kind Field Place Location)

/-- What an import says: its module, if a literal of its own names it, and the names that it binds. -/
structure Import.Entry where
  module : Option Text
  names : List String
  deriving DecidableEq

namespace Document

/-! ## The entries of a script -/

/-- The name that a node is, if it is one. -/
def nameOf (d : Document) (n : Node) : List String := if n.kind == .identifier then [d.wording n] else []

/-- The name that a member of a list binds. -/
def specifierNames (d : Document) (n : Node) : List String :=
  if n.kind == .importSpecifier then ((n.field? .asName).or (n.field? .name)).toList.flatMap d.nameOf else []

/-- The names that a part of a clause binds. -/
def clauseNames (d : Document) (n : Node) : List String :=
  match n.kind with
  | .identifier => d.nameOf n
  | .namespaceImport => n.children.flatMap d.nameOf
  | .namedImports => n.children.flatMap d.specifierNames
  | _ => []

/-- The names that a part of an import binds. -/
def partNames (d : Document) (n : Node) : List String :=
  match n.kind with
  | .importClause => n.children.flatMap d.clauseNames
  | .importRequireClause => n.children.flatMap d.nameOf
  | _ => []

def entryAt (d : Document) (p : Place) : Import.Entry :=
  ⟨d.moduleName? p, p.node.children.flatMap d.partNames⟩

/-- What the imports of the tree say. -/
def entries (d : Document) : List Import.Entry := d.importStatements.map d.entryAt

/-- The names that the imports of the tree bind. -/
def importNames (d : Document) : List String := d.entries.flatMap (·.names)

/-- Some import is from the module. -/
def Imports (d : Document) (module : String) : Prop := ∃ e ∈ d.entries, e.module = some (Text.ofString module)

instance (d : Document) (module : String) : Decidable (d.Imports module) :=
  inferInstanceAs (Decidable (∃ _ ∈ _, _))

/-- Some import from the module binds the name. -/
def Binds (d : Document) (module name : String) : Prop :=
  ∃ e ∈ d.entries, e.module = some (Text.ofString module) ∧ name ∈ e.names

instance (d : Document) (module name : String) : Decidable (d.Binds module name) :=
  inferInstanceAs (Decidable (∃ _ ∈ _, _))

/-- What the imports say that are read in lines. -/
def entriesIn (read : ByteArray → Except Location Node) (lines : List String) : List Import.Entry :=
  match read (lineText lines) with
  | .ok root => entries ⟨none, read, lineText lines, root, 0, none⟩
  | .error _ => []

variable {d : Document} {p : Place} {module : String}

theorem mem_importStatements : p ∈ d.importStatements ↔ p ∈ d.places ∧ p.node.kind = .importStatement := by
  unfold importStatements
  rw [List.mem_filter, beq_iff_eq]

theorem imports_iff : d.Imports module ↔ ∃ p, p ∈ d.importsOf module := by
  constructor
  · rintro ⟨_, he, hmodule⟩
    obtain ⟨p, hp, rfl⟩ := List.mem_map.mp he
    obtain ⟨hplace, hkind⟩ := mem_importStatements.mp hp
    exact ⟨p, mem_importsOf.mpr ⟨hplace, hkind, hmodule⟩⟩
  · rintro ⟨p, hp⟩
    obtain ⟨hplace, hkind, hmodule⟩ := mem_importsOf.mp hp
    exact ⟨_, List.mem_map_of_mem (mem_importStatements.mpr ⟨hplace, hkind⟩), hmodule⟩

end Document

/-! ## Looks that have answered -/

section Answered

variable {α : Type} {d : Document} {as : List α} {f : α → Looking Bool}

theorem findM?_ok {r : Option α} (h : as.findM? f d = .ok r) :
    r.elim (∀ a ∈ as, f a d = .ok false) fun a => f a d = .ok true := by
  induction as with
  | nil =>
    cases h
    exact List.forall_mem_nil _
  | cons a as ih =>
    obtain ⟨b, ha, h⟩ := looks_bind h
    cases b with
    | true =>
      cases h
      exact ha
    | false =>
      have hrest := ih h
      cases r with
      | none => exact List.forall_mem_cons.mpr ⟨ha, hrest⟩
      | some a' => exact hrest

theorem filterM_ok {kept : List α} (h : as.filterM f d = .ok kept) : ∀ a ∈ as, ∃ b, f a d = .ok b := by
  have hloop : ∀ (as kept kept' : List α), List.filterAuxM f as kept d = .ok kept' →
      ∀ a ∈ as, ∃ b, f a d = .ok b := by
    intro as
    induction as with
    | nil => exact fun _ _ _ => List.forall_mem_nil _
    | cons a as ih =>
      intro kept kept' h
      obtain ⟨b, ha, h⟩ := looks_bind h
      exact List.forall_mem_cons.mpr ⟨⟨b, ha⟩, ih _ _ h⟩
  obtain ⟨kept', hkept, -⟩ := looks_bind h
  exact hloop as [] kept' hkept

end Answered

section Imports

variable {d : Document} {p : Place} {module : String}

/-- Where it is known what module an import names, its literal has a value. -/
theorem moduleName?_ok {value : Option Text} (hd : d.Legible) (hp : p ∈ d.places)
    (h : Handle.valueOf? (p.moduleLiteral?.map d.handle) d = .ok value) :
    value = d.moduleName? p ∧ ∀ q ∈ p.moduleLiteral?, q.node.kind = .string →
      (Quoted.decode ((d.wording q.node).toList.drop 1).dropLast).isOk = true := by
  unfold Document.moduleName?
  cases hq : p.moduleLiteral? with
  | none =>
    rw [hq] at h
    cases h
    exact ⟨rfl, fun q hq => absurd hq (Option.not_mem_none q)⟩
  | some q =>
    rw [hq] at h
    obtain ⟨n, hn, hchild⟩ := Place.moduleLiteral?_child hq
    have hwithin : q.Within d.root := hchild ▸ (Document.within_of_mem_places hp).child hn
    obtain ⟨rfl, hread⟩ := Handle.literalValue?_ok hd hwithin h
    refine ⟨rfl, fun q' hq' => ?_⟩
    cases hq'
    exact hread

/-- Where it is known whether a node is an import of the module, so is what module an import names. -/
theorem holdsOf_importsFrom_ok {b : Bool} (hd : d.Legible) (hp : p ∈ d.places)
    (h : (Import.importsFrom module).holdsOf (d.handle p) d = .ok b) :
    b = (p.node.kind == .importStatement && d.moduleName? p == some (Text.ofString module)) ∧
      (p.node.kind = .importStatement → ∀ q ∈ p.moduleLiteral?, q.node.kind = .string →
        (Quoted.decode ((d.wording q.node).toList.drop 1).dropLast).isOk = true) := by
  rw [Import.importsFrom, Pattern.holdsOf] at h
  obtain ⟨asked, hasked, h⟩ := looks_bind h
  cases (Pattern.kindHolds_handle _).symm.trans hasked
  rw [Option.all_some, contains_singleton] at h
  cases hkind : p.node.kind == Kind.importStatement with
  | false =>
    rw [hkind] at h
    cases h
    exact ⟨rfl, fun himport => absurd himport (beq_eq_false_iff_ne.mp hkind)⟩
  | true =>
    rw [hkind] at h
    obtain ⟨literal, hliteral, h⟩ := looks_bind (show Pattern.alsoHolds (some fun h => do
      return (← Handle.valueOf? (← h.moduleLiteral?)) == some (Text.ofString module)) (d.handle p) d = .ok b from h)
    cases Handle.moduleLiteral?_handle.symm.trans hliteral
    obtain ⟨value, hvalue, h⟩ := looks_bind h
    cases h
    obtain ⟨rfl, hread⟩ := moduleName?_ok hd hp hvalue
    exact ⟨rfl, fun _ => hread⟩

/-- A search of the whole tree has read all literals that name modules of imports. -/
theorem importsNamed_of_findAll {found : List Handle} (hd : d.Legible)
    (h : findAll (Import.importsFrom module) d = .ok found) : d.ImportsNamed := by
  obtain ⟨candidates, hcandidates, h⟩ := looks_bind
    (show (MatchSet.within [d.handle (.root d.root)] (Import.importsFrom module)).members d = .ok found from h)
  cases candidates_eq.symm.trans hcandidates
  obtain ⟨kept, hkept, -⟩ := looks_bind h
  rw [List.flatten_singleton] at hkept
  intro p hp
  obtain ⟨b, hb⟩ := filterM_ok hkept (d.handle p) (List.mem_map_of_mem hp)
  exact (holdsOf_importsFrom_ok hd hp hb).2

/-- The search for the first import of a module stops at one. -/
theorem Import.isImported_ok {b : Bool} (hd : d.Legible) (h : isImported module d = .ok b) :
    b = true ↔ d.Imports module := by
  obtain ⟨found, hfound, h⟩ := looks_bind
    (show (do
      return (← (MatchSet.within [d.handle (.root d.root)] (importsFrom module)).first?).isSome :
        Looking Bool) d = .ok b from h)
  cases h
  obtain ⟨candidates, hcandidates, hfound⟩ := looks_bind hfound
  cases candidates_eq.symm.trans hcandidates
  rw [List.flatten_singleton] at hfound
  have hanswer := findM?_ok hfound
  rw [Document.imports_iff]
  cases found with
  | none =>
    refine iff_of_false Bool.false_ne_true fun ⟨p, hp⟩ => ?_
    obtain ⟨hplace, hkind, hmodule⟩ := Document.mem_importsOf.mp hp
    obtain ⟨hholds, -⟩ := holdsOf_importsFrom_ok hd hplace (hanswer _ (List.mem_map_of_mem hplace))
    rw [hkind, hmodule, beq_self_eq_true, beq_self_eq_true] at hholds
    cases hholds
  | some a =>
    obtain ⟨p, hp, rfl⟩ := List.mem_map.mp (mem_of_findM?_ok hfound)
    obtain ⟨hholds, -⟩ := holdsOf_importsFrom_ok hd hp hanswer
    obtain ⟨hkind, hmodule⟩ := Bool.and_eq_true_iff.mp hholds.symm
    exact iff_of_true rfl ⟨p, Document.mem_importsOf.mpr ⟨hp, beq_iff_eq.mp hkind, beq_iff_eq.mp hmodule⟩⟩

end Imports

end TestMigration
