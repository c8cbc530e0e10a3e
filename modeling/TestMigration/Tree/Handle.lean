import TestMigration.Tree.Document

/-! Handles on nodes. A handle remembers the generation of the document it was taken from
and refuses every use after a later commit, so that it never points into another text. -/

namespace TestMigration

open Script (Node Kind Field Place)

structure Handle where
  generation : Nat
  place : Place

namespace Handle

/-- A handle on a place of the current tree. -/
def on (p : Place) : Looking Handle := do
  return ⟨(← read).generation, p⟩

def root : Looking Handle := do
  on (.root (← read).root)

/-- Handles are told apart by generation, range and kind. -/
def same (a b : Handle) : Bool :=
  a.generation == b.generation && a.place.node.start == b.place.node.start &&
    a.place.node.stop == b.place.node.stop && a.place.node.kind == b.place.node.kind

def shown (h : Handle) : String :=
  let n := h.place.node
  s!"Path({n.kind.name}@{n.start}:{n.stop}, gen={h.generation})"

/-- The node, unless the document has moved on. -/
def node (h : Handle) : Looking Node := do
  let current := (← read).generation
  if h.generation == current then return h.place.node
  else throw (.stale
    s!"Path from generation {h.generation} used after the tree moved to generation {current}"
    h.generation current)

/-- The place, unless the document has moved on. -/
def fresh (h : Handle) : Looking Place := do
  let _ ← h.node
  return h.place

def kind (h : Handle) : Looking Kind := return (← h.node).kind

def start (h : Handle) : Looking Nat := return (← h.node).start

def stop (h : Handle) : Looking Nat := return (← h.node).stop

def text (h : Handle) : Looking String := do
  (← read).textOf (← h.node)

/-- 1-based line of the node's first character. -/
def line (h : Handle) : Looking Nat := do
  return (← read).lineOf (← h.node).start

def onAll (ps : List Place) : Looking (List Handle) := ps.mapM on

def parent? (h : Handle) : Looking (Option Handle) := do
  match (← h.fresh).parent? with
  | some p => return some (← on p)
  | none => return none

def namedChildren (h : Handle) : Looking (List Handle) := do
  onAll (← h.fresh).namedChildren

def field? (h : Handle) (f : Field) : Looking (Option Handle) := do
  match (← h.fresh).field? f with
  | some p => return some (← on p)
  | none => return none

def ancestors (h : Handle) : Looking (List Handle) := do
  onAll (← h.fresh).ancestors

/-- The node and its named descendants in document order. -/
def descendants (h : Handle) : Looking (List Handle) := do
  onAll (← h.fresh).descendants

def isStatement (h : Handle) : Looking Bool := do
  return ((← h.fresh).parent?.map (·.node.kind.holdsStatements)).getD false

def covers (outer inner : Handle) : Looking Bool := do
  let a ← outer.node
  let b ← inner.node
  return a.covers b

/-- The pieces of a text between and after replacements, from `cursor` on. -/
def substituted (d : Document) (outer : Node) :
    Nat → List (Node × String) → Except Failure ByteArray
  | cursor, [] => .ok (d.source.extract cursor outer.stop)
  | cursor, (inner, text) :: rest =>
    if outer.covers inner && cursor ≤ inner.start then do
      let tail ← substituted d outer inner.stop rest
      return d.source.extract cursor inner.start ++ text.toUTF8 ++ tail
    else .error (.transformation "Replacement range is outside the node or overlaps another")

/-- The node's text with some nodes inside it replaced. -/
def textWith (h : Handle) (replacements : List (Handle × String)) : Looking String := do
  let outer ← h.node
  let inner ← replacements.mapM fun (r, text) => return (← r.node, text)
  let ordered := inner.mergeSort fun a b => a.1.start ≤ b.1.start
  let d ← read
  Document.decode (← substituted d outer outer.start ordered)

def replaceWith (h : Handle) (text : Text) : Editing Unit := do
  let n ← h.node
  Document.recordEdit n.start n.stop text false

/-- A statement's range, and the rest of its lines if there is nothing else on them. -/
def lineExtent (d : Document) (n : Node) : Nat × Nat :=
  let first := d.lineStart n.start
  let last := d.lineStop n.stop
  let blank (start stop : Nat) := (d.source.extract start stop).toList.all isBlankByte
  if blank first n.start && blank n.stop last then (first, last) else (n.start, n.stop)

/-- Delete the node; a statement alone on its lines takes them with it. -/
def remove (h : Handle) : Editing Unit := do
  let n ← h.node
  let d ← get
  let statement ← h.isStatement
  let (start, stop) := if statement then lineExtent d n else (n.start, n.stop)
  Document.recordEdit start stop [] false

/-- Put a line above the node's line, or between the node and what precedes it there. -/
def insertBefore (h : Handle) (text : Text) : Editing Unit := do
  let n ← h.node
  let d ← get
  let first := d.lineStart n.start
  let indent : Text := .ofString (d.indentation n.start)
  if (d.source.extract first n.start).toList.all isBlankByte then
    Document.recordEdit first first (indent ++ text ++ [.char '\n']) false
  else
    Document.recordEdit n.start n.start (text ++ .char '\n' :: indent) false

end Handle

end TestMigration
