import TestMigration.Proofs.Holders

/-! Trees without positions, and what becomes of them when calls that have no effect go. Such a call gives
way to its receiver, a statement that only updates a variable is taken out from among the statements
around it, and everything else keeps its place. -/

namespace TestMigration

open Script (Node Kind Field Place)

/-- The methods that have no effect on a page. -/
def Chain.idleMethods : List String := ["first", "hostNodes", "update"]

namespace Script

/-- Nodes of these kinds have no parts: what they are is in their text. -/
def Kind.isWord : Kind → Bool
  | .identifier | .propertyIdentifier | .privatePropertyIdentifier | .shorthandPropertyIdentifier
  | .shorthandPropertyIdentifierPattern | .statementIdentifier | .typeIdentifier | .predefinedType
  | .number | .stringFragment | .escapeSequence | .regexPattern | .regexFlags | .jsxText | .comment => true
  | _ => false

/-- A tree without positions. -/
inductive Form where
  | mk (role : Option Field) (kind : Kind) (word : String) (parts : List Form)

namespace Form

def role : Form → Option Field
  | mk role _ _ _ => role

def kind : Form → Kind
  | mk _ kind _ _ => kind

def word : Form → String
  | mk _ _ word _ => word

def parts : Form → List Form
  | mk _ _ _ parts => parts

def withRole (role : Option Field) : Form → Form
  | mk _ kind word parts => mk role kind word parts

def field? (f : Form) (role : Field) : Option Form := f.parts.find? (·.role == some role)

/-- The arguments of a call. -/
def arguments (f : Form) : List Form :=
  (f.field? .arguments).elim [] fun list =>
    if list.kind == .arguments then
      (list.parts.filter (·.kind.isNamed)).filter (·.kind != .comment)
    else []

/-- A call of one of the methods, without arguments. -/
def callsBare (methods : List String) (f : Form) : Bool :=
  f.kind == .callExpression && ((f.field? .callee).any fun callee =>
    callee.kind == .memberExpression && (callee.field? .property).any fun property =>
      property.kind == .propertyIdentifier && methods.contains property.word) && f.arguments.isEmpty

/-- What a method is called on. -/
def receiver? (f : Form) : Option Form := (f.field? .callee).bind (·.field? .object)

/-- A statement that updates a variable, and nothing else. -/
def isUpdate (f : Form) : Bool :=
  f.kind == .expressionStatement && f.parts.any fun call =>
    call.callsBare ["update"] && call.receiver?.any (·.kind == .identifier)

mutual

/-- The second tree is the first one without some of the calls that have no effect. -/
inductive Prunes : Form → Form → Prop where
  | call {f receiver pruned : Form} : f.callsBare Chain.idleMethods = true →
      f.receiver? = some receiver → Prunes receiver pruned → Prunes f (pruned.withRole f.role)
  | node {role : Option Field} {kind : Kind} {word : String} {parts kept : List Form} :
      PrunesAll parts kept → Prunes (mk role kind word parts) (mk role kind word kept)

/-- The parts of a tree stay in their order; statements that are only updates may go. -/
inductive PrunesAll : List Form → List Form → Prop where
  | nil : PrunesAll [] []
  | keep {f g : Form} {fs gs : List Form} : Prunes f g → PrunesAll fs gs → PrunesAll (f :: fs) (g :: gs)
  | drop {f : Form} {fs gs : List Form} : f.isUpdate = true → PrunesAll fs gs → PrunesAll (f :: fs) gs

end

mutual

theorem Prunes.refl : ∀ f : Form, Prunes f f
  | mk _ _ _ parts => .node (PrunesAll.refl parts)

theorem PrunesAll.refl : ∀ fs : List Form, PrunesAll fs fs
  | [] => .nil
  | f :: fs => .keep (Prunes.refl f) (PrunesAll.refl fs)

end

/-- The parts that are kept stay in their order, each of them pruned itself, and all that are no updates
are among them. -/
theorem PrunesAll.kept {fs gs : List Form} (h : PrunesAll fs gs) : ∃ kept : List Form,
    kept.Sublist fs ∧ (fs.filter fun f => !f.isUpdate).Sublist kept ∧ List.Forall₂ Prunes kept gs := by
  -- the induction is on the parts, for the relation itself is mutual with that of trees
  induction fs generalizing gs with
  | nil =>
    cases h
    exact ⟨[], .refl [], .refl [], .nil⟩
  | cons f fs ih =>
    cases h with
    | keep hf hfs =>
      obtain ⟨kept, hsub, hothers, hpruned⟩ := ih hfs
      refine ⟨f :: kept, hsub.cons_cons f, ?_, .cons hf hpruned⟩
      rw [List.filter_cons]
      split
      · exact hothers.cons_cons f
      · exact hothers.cons f
    | drop hupdate hfs =>
      obtain ⟨kept, hsub, hothers, hpruned⟩ := ih hfs
      refine ⟨kept, hsub.cons f, ?_, hpruned⟩
      rw [List.filter_cons, hupdate]
      exact hothers

/-- What is no call without effect stays what it is, and of its parts only updates go. -/
theorem Prunes.parts {f g : Form} (h : Prunes f g) (hstays : f.callsBare Chain.idleMethods = false) :
    g.role = f.role ∧ g.kind = f.kind ∧ g.word = f.word ∧ ∃ kept : List Form,
      kept.Sublist f.parts ∧ (f.parts.filter fun f => !f.isUpdate).Sublist kept ∧
        List.Forall₂ Prunes kept g.parts := by
  cases h with
  | call hcall =>
    rw [hstays] at hcall
    cases hcall
  | node hparts => exact ⟨rfl, rfl, rfl, hparts.kept⟩

/-! Two trees without positions are compared node by node. -/

mutual

def same : Form → Form → Bool
  | mk role kind word parts, mk role' kind' word' parts' =>
    role == role' && (kind == kind' && (word == word' && sameAll parts parts'))

def sameAll : List Form → List Form → Bool
  | [], [] => true
  | f :: fs, g :: gs => same f g && sameAll fs gs
  | _, _ => false

end

mutual

theorem same_iff : ∀ f g : Form, same f g = true ↔ f = g
  | mk _ _ _ parts, mk _ _ _ parts' => by
    rw [same, Bool.and_eq_true_iff, Bool.and_eq_true_iff, Bool.and_eq_true_iff, beq_iff_eq, beq_iff_eq,
      beq_iff_eq, sameAll_iff parts parts', mk.injEq]

theorem sameAll_iff : ∀ fs gs : List Form, sameAll fs gs = true ↔ fs = gs
  | [], [] => by simp [sameAll]
  | [], _ :: _ => by simp [sameAll]
  | _ :: _, [] => by simp [sameAll]
  | f :: fs, g :: gs => by
    rw [sameAll, Bool.and_eq_true_iff, same_iff f g, sameAll_iff fs gs, List.cons.injEq]

end

instance : DecidableEq Form := fun f g => decidable_of_iff _ (same_iff f g)

end Form

end Script

open Script (Form)

instance (e : Edit) (start stop : Nat) (text : String) : Decidable (e.Puts start stop text) :=
  inferInstanceAs (Decidable (_ ∧ _ ∧ _))

/-! ## The tree of a document -/

namespace Document

/-- What is written at a node that has no parts. -/
def wordOf (d : Document) (n : Node) : String := if n.kind.isWord then d.wording n else ""

mutual

/-- The node without its position. -/
def formOf (d : Document) : Node → Form
  | n@(.mk role kind _ _ children) => .mk role kind (d.wordOf n) (formsOf d children)

def formsOf (d : Document) : List Node → List Form
  | [] => []
  | n :: rest => formOf d n :: formsOf d rest

end

/-- The tree of the document without positions. -/
def form (d : Document) : Form := d.formOf d.root

variable {d : Document} {p q : Place} {n : Node}

theorem formsOf_eq (ns : List Node) : d.formsOf ns = ns.map d.formOf := by
  induction ns with
  | nil => rfl
  | cons n ns ih => rw [formsOf, ih, List.map_cons]

@[simp] theorem role_formOf : (d.formOf n).role = n.role := by
  cases n
  rfl

@[simp] theorem kind_formOf : (d.formOf n).kind = n.kind := by
  cases n
  rfl

@[simp] theorem word_formOf : (d.formOf n).word = d.wordOf n := by
  cases n
  rfl

@[simp] theorem parts_formOf : (d.formOf n).parts = n.children.map d.formOf := by
  cases n
  exact formsOf_eq _

theorem field?_formOf (f : Field) : (d.formOf n).field? f = (n.field? f).map d.formOf := by
  unfold Form.field? Node.field?
  rw [parts_formOf, List.find?_map]
  congr 2
  funext m
  rw [Function.comp_apply, role_formOf]

theorem arguments_formOf :
    (d.formOf p.node).arguments = p.callArguments.map fun q => d.formOf q.node := by
  unfold Form.arguments Place.callArguments Place.field?
  rw [field?_formOf]
  cases p.node.field? .arguments with
  | none => rfl
  | some list =>
    rw [Option.map_some, Option.map_some, Option.elim_some, Option.elim_some, kind_formOf]
    change _ = List.map _ (if list.kind == Kind.arguments then _ else _)
    split
    · unfold Place.namedChildren Node.namedChildren
      rw [parts_formOf, List.filter_map, List.filter_map, List.filter_map, List.map_map]
      simp only [Function.comp_def, kind_formOf]
      rfl
    · rfl

theorem callsBare_formOf (methods : List String) :
    (d.formOf p.node).callsBare methods = d.callsBare (.oneOf methods) p := by
  unfold Form.callsBare callsBare callsMethod
  rw [arguments_formOf, kind_formOf, field?_formOf, List.isEmpty_map]
  congr 2
  unfold Place.field?
  rw [Option.any_map, Option.any_map]
  congr 1
  funext callee
  simp only [kind_formOf, field?_formOf, Option.any_map]
  change _ = (callee.kind == Kind.memberExpression && _)
  congr 2
  funext property
  simp only [word_formOf, TextTest.holds_oneOf]
  change _ = (property.kind == Kind.propertyIdentifier && methods.contains (d.wording property))
  -- the kind of the name decides that it is in its text
  cases hkind : property.kind == Kind.propertyIdentifier with
  | false => rfl
  | true =>
    rw [wordOf, beq_iff_eq.mp hkind]
    rfl

theorem receiver?_formOf :
    (d.formOf p.node).receiver? = p.subject?.map fun q => d.formOf q.node := by
  unfold Form.receiver? Place.subject? Place.field?
  rw [field?_formOf]
  cases p.node.field? .callee with
  | none => rfl
  | some callee =>
    rw [Option.map_some, Option.bind_some, field?_formOf, Option.map_some, Option.bind_some,
      Option.map_map]
    rfl

/-! ## The tree that edits leave -/

/-- The receiver that one of the edits puts in the place of a call without effect. -/
def replacement? (d : Document) (applied : List Edit) (p : Place) : Option Place :=
  if d.callsBare (.oneOf Chain.idleMethods) p then
    p.subject?.filter fun q =>
      applied.any fun e => decide (e.Puts p.node.start p.node.stop (d.wording q.node))
  else none

/-- One of the edits takes the statement, which is only an update, away. -/
def isTaken (d : Document) (applied : List Edit) (p : Place) : Bool :=
  (d.formOf p.node).isUpdate &&
    applied.any fun e => decide (e.Puts (d.extent p).1 (d.extent p).2 "")

mutual

/-- The tree with the edits made in it, each at the node whose range it replaces. -/
def prunedFrom (d : Document) (applied : List Edit) (above : List Node) : Node → Form
  | n@(.mk role kind _ _ children) =>
    match d.replacement? applied ⟨n, above⟩ with
    | some receiver => (d.formOf receiver.node).withRole role
    | none => .mk role kind (d.wordOf n) (prunedAllFrom d applied (n :: above) children)

def prunedAllFrom (d : Document) (applied : List Edit) (above : List Node) : List Node → List Form
  | [] => []
  | n :: rest =>
    if d.isTaken applied ⟨n, above⟩ then prunedAllFrom d applied above rest
    else prunedFrom d applied above n :: prunedAllFrom d applied above rest

end

/-- The document's tree with the edits made in it. -/
def pruned (d : Document) (applied : List Edit) : Form := d.prunedFrom applied [] d.root

variable {applied : List Edit}

theorem replacement?_some (h : d.replacement? applied p = some q) :
    (d.formOf p.node).callsBare Chain.idleMethods = true ∧
      (d.formOf p.node).receiver? = some (d.formOf q.node) := by
  unfold replacement? at h
  split at h
  · rename_i hcalls
    rw [callsBare_formOf, receiver?_formOf, (Option.filter_eq_some_iff.mp h).1]
    exact ⟨hcalls, rfl⟩
  · cases h

mutual

/-- The induction is along the tree: a node gives way to its receiver, or its parts are pruned. -/
theorem prunes_prunedFrom (d : Document) (applied : List Edit) (above : List Node) :
    ∀ n : Node, Form.Prunes (d.formOf n) (d.prunedFrom applied above n)
  | .mk role kind start stop children => by
    rw [prunedFrom]
    split
    · rename_i receiver hreceiver
      obtain ⟨hcalls, hform⟩ := replacement?_some hreceiver
      exact Form.Prunes.call hcalls hform (Form.Prunes.refl _)
    · exact Form.Prunes.node (prunesAll_prunedAllFrom d applied _ children)

theorem prunesAll_prunedAllFrom (d : Document) (applied : List Edit) (above : List Node) :
    ∀ ns : List Node, Form.PrunesAll (d.formsOf ns) (d.prunedAllFrom applied above ns)
  | [] => .nil
  | n :: rest => by
    rw [prunedAllFrom, formsOf]
    split
    · rename_i htaken
      exact .drop (Bool.and_eq_true_iff.mp htaken).1 (prunesAll_prunedAllFrom d applied above rest)
    · exact .keep (prunes_prunedFrom d applied above n) (prunesAll_prunedAllFrom d applied above rest)

end

theorem prunes_pruned (d : Document) (applied : List Edit) : Form.Prunes d.form (d.pruned applied) :=
  prunes_prunedFrom d applied [] d.root

end Document

end TestMigration
