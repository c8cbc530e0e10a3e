import TestMigration.Tree.Edit
import TestMigration.Text.Blank

/-! A document is a script's text with its tree, and at most one open batch of edits. A
commit splices the batch into the text and reads the text again; it is given up whole when
the outcome does not parse. Every commit begins a new generation. -/

namespace TestMigration

open Script (Node Location)

/-- `read` is how the text is parsed; nothing else here depends on the grammar. -/
structure Document where
  path : Option String
  read : ByteArray → Except Location Node
  source : ByteArray
  root : Node
  generation : Nat
  batch : Option Batch

/-- Plain script files have angle-bracket assertions in place of markup; a declaration file
does not count as one. -/
def dialectFor (path : Option String) : Script.Dialect :=
  match path with
  | none => .tsx
  | some p =>
    if (p.endsWith ".ts" || p.endsWith ".mts" || p.endsWith ".cts") && !p.endsWith ".d.ts" then .plain else .tsx

/-- Computations that change a document; a failure leaves the changes made before it. -/
abbrev Editing := EStateM Failure Document

/-- Computations that only look at a document. -/
abbrev Looking := ReaderT Document (Except Failure)

namespace Document

/-- Offset of the start of the line that holds `offset`. -/
def lineStart (d : Document) (offset : Nat) : Nat :=
  Script.lineStart d.source (min offset d.source.size)

def lineStopFrom (bytes : ByteArray) : Nat → Nat → Nat
  | 0, p => p
  | fuel + 1, p =>
    if p < bytes.size then
      if bytes.get! p == 10 then p + 1 else lineStopFrom bytes fuel (p + 1)
    else bytes.size

/-- Offset just past the line feed that ends the line of `offset`. -/
def lineStop (d : Document) (offset : Nat) : Nat :=
  lineStopFrom d.source (d.source.size + 1 - offset) offset

def decode (bytes : ByteArray) : Except Failure String :=
  match String.fromUTF8? bytes with
  | some s => .ok s
  | none => .error (.of .undecodable "text is not UTF-8")

def slice (d : Document) (start stop : Nat) : Except Failure String :=
  decode (d.source.extract start stop)

def code (d : Document) : Except Failure String := decode d.source

def textOf (d : Document) (n : Node) : Except Failure String := d.slice n.start n.stop

/-- The spaces and tabs between the start of the line and its first other character. -/
def indentation (d : Document) (offset : Nat) : String :=
  let line := (d.source.extract (d.lineStart offset) offset).toList
  String.ofList ((line.takeWhile fun b => b == 32 || b == 9).map fun b => Char.ofNat b.toNat)

/-- The trimmed lines above the one that holds `offset`, the nearest first. -/
def linesBefore (d : Document) (offset : Nat) : Except Failure (List String) := do
  let head ← d.slice 0 (d.lineStart offset)
  return (Blank.lines head).reverse.map Blank.trim

/-- 1-based line of an offset. -/
def lineOf (d : Document) (offset : Nat) : Nat := Script.lineFeedsBefore d.source offset + 1

/-- A document over a text; fails where the text does not parse. -/
def ofBytes (path : Option String) (read : ByteArray → Except Location Node)
    (source : ByteArray) : Except Failure Document :=
  match read source with
  | .error place => .error (.syntaxError path place)
  | .ok root => .ok ⟨path, read, source, root, 0, none⟩

def ofString (path : Option String) (source : String) : Except Failure Document :=
  ofBytes path (Script.parse (dialectFor path)) source.toUTF8

private def snippet (source : ByteArray) (place : Location) : String :=
  match String.fromUTF8? source with
  | some s => ((Blank.lines s)[place.line - 1]?).getD ""
  | none => ""

/-- Read a new text in place of the old one. -/
def replaceSource (d : Document) (source : ByteArray) : Except Failure Document :=
  match d.read source with
  | .error place => .error (.invalidEdit place (snippet source place))
  | .ok root => .ok { d with source := source, root := root, generation := d.generation + 1 }

/-- Apply a batch. The batch that comes back is spent, whether or not its outcome parses;
the document that comes back is the old one if it does not. -/
def commit (d : Document) (b : Batch) : Except Failure Unit × Batch × Document :=
  if b.committed then (.error (.transformation "Edit batch already committed"), b, d)
  else if b.edits.isEmpty then (.ok (), { b with committed := true }, d)
  else
    let (applied, deferred) := b.settled
    let b := { b with committed := true, applied := applied.length, deferred := deferred }
    match d.replaceSource (Edit.splice d.source 0 applied) with
    | .ok d' => (.ok (), b, d')
    | .error e => (.error e, b, d)

/-- Open a batch; there is at most one. -/
def openBatch : Editing Unit := do
  let d ← get
  if d.batch.isSome then throw (.transformation "Edit batches cannot be nested")
  set { d with batch := some (.open' d.generation) }

/-- Take the open batch away without applying it. -/
def dropBatch : Editing (Option Batch) := do
  let d ← get
  set { d with batch := none }
  return d.batch

/-- Close the open batch and apply it. -/
def closeBatch : Editing Batch := do
  match ← dropBatch with
  | none => throw (.transformation "No edit batch is open")
  | some b =>
    let (outcome, b, d) := (← get).commit b
    set d
    match outcome with
    | .ok () => return b
    | .error e => throw e

/-- Collect the edits that `body` records and apply them at its end. When `body` fails
nothing is applied. -/
def batched {α : Type} (body : Editing α) : Editing (α × Batch) := do
  openBatch
  let a ← try body catch e => do
    let _ ← dropBatch
    throw e
  let b ← closeBatch
  return (a, b)

/-- Record the edits of `body` in the open batch, or in one of their own. -/
def editing {α : Type} (body : Editing α) : Editing α := do
  if (← get).batch.isSome then body else return (← batched body).1

/-- The rounds still to run, with the edits applied by those before. -/
def roundsFrom (round : Editing Unit) (limit : Int) : Nat → Nat → Editing Nat
  | 0, _ => throw (.transformation s!"Rewrite did not settle after {limit} rounds")
  | rounds + 1, total => do
    let ((), b) ← batched round
    let total := total + b.applied
    if b.deferred.isEmpty then return total else roundsFrom round limit rounds total

/-- Repeat `round`, each time in a batch of its own, until none of its edits is deferred;
yields the number of edits applied. -/
def untilStable (round : Editing Unit) (limit : Int) : Editing Nat :=
  roundsFrom round limit limit.toNat 0

/-- As many rounds as a pass is given. -/
def roundLimit : Int := 50

/-- Record one edit in the open batch. -/
def addToBatch (start stop : Int) (text : Text) (ahead : Bool) : Editing Unit := do
  let d ← get
  match d.batch with
  | none => throw (.transformation "No edit batch is open")
  | some b =>
    match b.add d.generation d.source.size start stop text ahead with
    | .ok b => set { d with batch := some b }
    | .error e => throw e

/-- Record one edit; without an open batch it is applied at once. -/
def recordEdit (start stop : Int) (text : Text) (ahead : Bool) : Editing Unit :=
  editing (addToBatch start stop text ahead)

/-- The place of the first line that is not a hash-bang line. -/
def top (d : Document) : Nat :=
  match d.root.children.find? (·.kind == .hashBangLine) with
  | some line => d.lineStop line.stop
  | none => 0

/-- Put a line above everything but a hash-bang line. -/
def insertAtTop (text : Text) : Editing Unit := do
  if text.isEmpty then return
  let offset := (← get).top
  recordEdit offset offset (text ++ [.char '\n']) true

/-- Run a computation that only looks. -/
def looking {α : Type} (look : Looking α) : Editing α := do
  match look (← get) with
  | .ok a => return a
  | .error e => throw e

end Document

instance : MonadLift Looking Editing := ⟨Document.looking⟩

instance : MonadLift (Except Failure) Editing := ⟨fun
  | .ok a => return a
  | .error e => throw e⟩

end TestMigration
