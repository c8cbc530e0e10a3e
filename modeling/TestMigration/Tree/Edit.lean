import TestMigration.Failure
import TestMigration.Text.Glyph

/-! Edits of a byte text. Edits recorded against one text are applied together: in order of
their ranges, each unless it begins inside one applied before it. What is left over is
deferred to another round. -/

namespace TestMigration

/-- Replace the bytes from `start` up to `stop` by `text`. `turn` counts the edits of a
batch; one that goes ahead is put before the others at its place, the latest first. -/
structure Edit where
  start : Nat
  stop : Nat
  text : ByteArray
  turn : Nat
  ahead : Bool

namespace Edit

def isInsertion (e : Edit) : Bool := e.start == e.stop

/-- Position within an insertion point or among replacements of one range. -/
def rank (e : Edit) : Int := if e.ahead then -(e.turn : Int) - 1 else e.turn

/-- Order of application: by start, insertions before replacements, the longer range first,
then by rank. -/
def before (a b : Edit) : Bool :=
  if a.start != b.start then a.start < b.start
  else if a.isInsertion != b.isInsertion then a.isInsertion
  else if a.stop != b.stop then b.stop < a.stop
  else a.rank ≤ b.rank

/-- Put an edit in its place among edits in order. -/
def place (e : Edit) : List Edit → List Edit
  | [] => [e]
  | a :: rest => if e.before a then e :: a :: rest else a :: place e rest

/-- The edits in order. -/
def sorted : List Edit → List Edit
  | [] => []
  | e :: rest => place e (sorted rest)

/-- Edits in order, split into those that apply from `cursor` on and those that do not. -/
def settle (cursor : Nat) : List Edit → List Edit × List Edit
  | [] => ([], [])
  | e :: rest =>
    if e.start < cursor then
      let (applied, deferred) := settle cursor rest
      (applied, e :: deferred)
    else
      let (applied, deferred) := settle e.stop rest
      (e :: applied, deferred)

/-- The text from `cursor` on with the edits made. -/
def splice (source : ByteArray) (cursor : Nat) : List Edit → ByteArray
  | [] => source.extract cursor source.size
  | e :: rest => source.extract cursor e.start ++ e.text ++ splice source e.stop rest

end Edit

/-- Edits recorded against one generation of a document. -/
structure Batch where
  generation : Nat
  edits : List Edit
  committed : Bool
  applied : Nat
  deferred : List Edit

namespace Batch

/-- A new batch for a document's current generation. -/
def open' (generation : Nat) : Batch := ⟨generation, [], false, 0, []⟩

def size (b : Batch) : Nat := b.edits.length

/-- Record an edit of a text of `length` bytes at a generation. A repeat of an earlier edit
is dropped. -/
def add (b : Batch) (generation length : Nat) (start stop : Int) (text : Text)
    (ahead : Bool) : Except Failure Batch :=
  if b.committed then .error (.transformation "Cannot add edits to a committed batch")
  else if generation != b.generation then
    .error (.stale "Edit batch outlived its tree generation" b.generation generation)
  else if start < 0 || stop < start || stop > length then
    .error (.transformation s!"Edit range {start}:{stop} is outside the source")
  else match text.toString? with
    | none => .error (.of .unencodable "text holds a lone surrogate")
    | some s =>
      let bytes := s.toUTF8
      let (start, stop) := (start.toNat, stop.toNat)
      if b.edits.any fun e => e.start == start && e.stop == stop && e.text == bytes then .ok b
      else .ok { b with edits := b.edits ++ [⟨start, stop, bytes, b.size, ahead⟩] }

/-- The edits to apply, in order, and the ones to defer. -/
def settled (b : Batch) : List Edit × List Edit :=
  Edit.settle 0 (Edit.sorted b.edits)

end Batch

end TestMigration
