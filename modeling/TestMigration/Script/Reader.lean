import TestMigration.Script.Node

/-! Backtracking readers over the bytes of a script. A reader either yields a value and the
cursor after it or fails; both outcomes carry the furthest offset that was ever looked at,
which is where a syntax error is reported. Blank space and comments are passed over lazily,
just before a token, so the end of the last token stays known: nodes end there. -/

namespace TestMigration.Script

/-- `tsx` has markup and no angle-bracket assertions, `plain` the reverse. -/
inductive Dialect where
  | tsx | plain
  deriving DecidableEq, Repr, Inhabited

structure Input where
  bytes : ByteArray
  dialect : Dialect

/-- `comments` lists the comments passed so far, the latest first. -/
structure Cursor where
  pos : Nat
  last : Nat
  comments : List Node
  reach : Nat
  deriving Inhabited

inductive Outcome (α : Type) where
  | ok (value : α) (cursor : Cursor)
  | failed (reach : Nat)

def Reader (α : Type) : Type := Input → Cursor → Outcome α

namespace Reader

variable {α β : Type}

@[inline] protected def pure (a : α) : Reader α := fun _ c => .ok a c

@[inline] protected def bind (r : Reader α) (f : α → Reader β) : Reader β := fun i c =>
  match r i c with
  | .ok a c => f a i c
  | .failed reach => .failed reach

instance : Monad Reader where
  pure := Reader.pure
  bind := Reader.bind

@[inline] def fail : Reader α := fun _ c => .failed (max c.reach c.pos)

instance : Inhabited (Reader α) := ⟨fail⟩

/-- The second alternative starts where the first did and remembers how far that one got. -/
@[inline] protected def orElse (r : Reader α) (s : Unit → Reader α) : Reader α := fun i c =>
  match r i c with
  | .ok a c => .ok a c
  | .failed reach => s () i { c with reach := max c.reach reach }

instance : OrElse (Reader α) := ⟨Reader.orElse⟩

protected def optional (r : Reader α) : Reader (Option α) :=
  (some <$> r) <|> Pure.pure none

/-- Look ahead: succeeds when `r` would, and moves nothing. -/
def ahead (r : Reader α) : Reader Unit := fun i c =>
  match r i c with
  | .ok _ after => .ok () { c with reach := max c.reach after.reach }
  | .failed reach => .failed reach

/-- Look ahead: succeeds when `r` would fail. -/
def notAhead (r : Reader α) : Reader Unit := fun i c =>
  match r i c with
  | .ok _ _ => .failed (max c.reach c.pos)
  | .failed _ => .ok () c

protected def guard (b : Bool) : Reader Unit := if b then Pure.pure () else fail

def firstOf : List (Reader α) → Reader α
  | [] => fail
  | [r] => r
  | r :: rest => r <|> firstOf rest

def repeatAtMost (r : Reader α) : Nat → Reader (List α)
  | 0 => Pure.pure []
  | n + 1 => fun i c =>
    match r i c with
    | .failed reach => .ok [] { c with reach := max c.reach reach }
    | .ok a after =>
      if c.last < after.last then
        match repeatAtMost r n i after with
        | .ok rest done => .ok (a :: rest) done
        | .failed reach => .failed reach
      else .ok [a] after

/-- As many as there are. A round that takes no token is the last one, so there are at most
as many rounds as bytes. -/
def many (r : Reader α) : Reader (List α) := fun i c =>
  repeatAtMost r (i.bytes.size + 1 - c.last) i c

/-- One or more, each but the first preceded by a separator. -/
def sepBy1 (r : Reader α) (separator : Reader Unit) : Reader (List α) := do
  let first ← r
  let rest ← many (do separator; r)
  return first :: rest

def input : Reader Input := fun i c => .ok i c

def dialect : Reader Dialect := fun i c => .ok i.dialect c

def cursor : Reader Cursor := fun _ c => .ok c c

end Reader

/-- The character that starts at an offset and its width; a byte that starts none reads as
a replacement character one byte wide. -/
def Input.char? (i : Input) (p : Nat) : Option (Char × Nat) :=
  if p < i.bytes.size then
    let b := (i.bytes.get! p).toNat
    if b < 128 then some (Char.ofNat b, 1)
    else match i.bytes.utf8DecodeChar? p with
      | some c => some (c, c.utf8Size)
      | none => some ('\uFFFD', 1)
  else none

/-- Do these bytes stand at an offset? -/
def Input.holdsBytes (i : Input) : List UInt8 → Nat → Bool
  | [], _ => true
  | b :: rest, p => p < i.bytes.size && i.bytes.get! p == b && i.holdsBytes rest (p + 1)

def Input.holdsAt (i : Input) (p : Nat) (text : String) : Bool :=
  i.holdsBytes text.toUTF8.data.toList p

def Input.textOf (i : Input) (start stop : Nat) : String :=
  (String.fromUTF8? (i.bytes.extract start stop)).getD ""

end TestMigration.Script
