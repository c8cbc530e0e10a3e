import TestMigration.Script.Kind

/-! Concrete trees. A node covers a range of byte offsets and keeps its named children in
source order; of the unnamed tokens only those that a field names are kept. A `Place` is a
node together with the nodes around it, so that a walk can look outward as well as inward. -/

namespace TestMigration.Script

/-- `role` is the field of the parent under which the node stands. -/
inductive Node where
  | mk (role : Option Field) (kind : Kind) (start stop : Nat) (children : List Node)
  deriving Repr, Inhabited

namespace Node

def role : Node → Option Field
  | mk role _ _ _ _ => role

def kind : Node → Kind
  | mk _ kind _ _ _ => kind

/-- Offset of the first byte. -/
def start : Node → Nat
  | mk _ _ start _ _ => start

/-- Offset just past the last byte. -/
def stop : Node → Nat
  | mk _ _ _ stop _ => stop

def children : Node → List Node
  | mk _ _ _ _ children => children

def withRole (role : Field) : Node → Node
  | mk _ kind start stop children => mk (some role) kind start stop children

def withKind (kind : Kind) : Node → Node
  | mk role _ start stop children => mk role kind start stop children

def namedChildren (n : Node) : List Node :=
  n.children.filter (·.kind.isNamed)

/-- The first child that stands under the field. -/
def field? (n : Node) (f : Field) : Option Node :=
  n.children.find? (·.role == some f)

/-- Both ends of `inner` lie within `outer`. -/
def covers (outer inner : Node) : Bool :=
  outer.start ≤ inner.start && inner.stop ≤ outer.stop

mutual

/-- Hang a comment on the innermost node that began before it and did not end before it. -/
def addComment (comment : Node) : Node → Node
  | mk role kind start stop children =>
    mk role kind start stop (addCommentAmong comment children)

def addCommentAmong (comment : Node) : List Node → List Node
  | [] => [comment]
  | child :: rest =>
    if child.start < comment.start then
      if comment.stop ≤ child.stop && child.kind.isNamed then addComment comment child :: rest
      else child :: addCommentAmong comment rest
    else comment :: child :: rest

end

end Node

/-- A node and its ancestors, the nearest first. -/
structure Place where
  node : Node
  above : List Node
  deriving Inhabited

namespace Place

def root (n : Node) : Place := ⟨n, []⟩

def parent? (p : Place) : Option Place :=
  match p.above with
  | [] => none
  | n :: above => some ⟨n, above⟩

def child (p : Place) (n : Node) : Place := ⟨n, p.node :: p.above⟩

def namedChildren (p : Place) : List Place :=
  p.node.namedChildren.map p.child

def field? (p : Place) (f : Field) : Option Place :=
  (p.node.field? f).map p.child

/-- The ancestors from the parent outward. -/
def ancestorsOf : List Node → List Place
  | [] => []
  | n :: above => ⟨n, above⟩ :: ancestorsOf above

def ancestors (p : Place) : List Place := ancestorsOf p.above

mutual

/-- A node and its named descendants in document order, each before its own descendants. -/
def walk (above : List Node) : Node → List Place
  | n@(.mk _ _ _ _ children) => ⟨n, above⟩ :: walkAll (n :: above) children

def walkAll (above : List Node) : List Node → List Place
  | [] => []
  | n :: rest => (if n.kind.isNamed then walk above n else []) ++ walkAll above rest

end

def descendants (p : Place) : List Place := walk p.above p.node

end Place

end TestMigration.Script
