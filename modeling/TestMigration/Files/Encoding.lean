import TestMigration.Failure
import TestMigration.Text.Blank

/-! File contents as text. Files hold UTF-8; a file that does not is refused at its first bad
byte. When a file is read, every line break becomes a line feed. -/

namespace TestMigration

/-- A character that has begun: where, with which byte, how many bytes are missing and between
which bounds the next one lies. -/
structure Begun where
  start : Nat
  lead : UInt8
  missing : Nat
  low : UInt8 := 0x80
  high : UInt8 := 0xBF

/-- The character that a byte above `0x7F` begins. -/
def Begun.of? (start : Nat) (b : UInt8) : Option Begun :=
  if b < 0xC2 then none
  else if b < 0xE0 then some ⟨start, b, 1, 0x80, 0xBF⟩
  else if b < 0xF0 then
    some ⟨start, b, 2, if b == 0xE0 then 0xA0 else 0x80, if b == 0xED then 0x9F else 0xBF⟩
  else if b < 0xF5 then
    some ⟨start, b, 3, if b == 0xF0 then 0x90 else 0x80, if b == 0xF4 then 0x8F else 0xBF⟩
  else none

/-- Bytes that are no UTF-8: where they begin, how many they are, the first of them, and why. -/
structure BadBytes where
  start : Nat
  count : Nat
  lead : UInt8
  reason : String

def BadBytes.shown (b : BadBytes) : String :=
  let bytes :=
    if b.count == 1 then s!"byte 0x{Shown.hex 2 b.lead.toNat} in position {b.start}"
    else s!"bytes in position {b.start}-{b.start + b.count - 1}"
  s!"'utf-8' codec can't decode {bytes}: {b.reason}"

/-- The first bytes from offset `pos` on that are no UTF-8. -/
def BadBytes.find? (pos : Nat) : Option Begun → List UInt8 → Option BadBytes
  | none, [] => none
  | some c, [] => some ⟨c.start, pos - c.start, c.lead, "unexpected end of data"⟩
  | none, b :: rest =>
    if b < 0x80 then find? (pos + 1) none rest
    else match Begun.of? pos b with
      | none => some ⟨pos, 1, b, "invalid start byte"⟩
      | some c => find? (pos + 1) (some c) rest
  | some c, b :: rest =>
    if b < c.low || c.high < b then some ⟨c.start, pos - c.start, c.lead, "invalid continuation byte"⟩
    else if c.missing ≤ 1 then find? (pos + 1) none rest
    else find? (pos + 1) (some ⟨c.start, c.lead, c.missing - 1, 0x80, 0xBF⟩) rest

/-- The text of a file. -/
def textOfBytes (bytes : ByteArray) : Except Failure String :=
  match String.fromUTF8? bytes with
  | some s => .ok (if s.toList.contains '\r' then String.ofList (Blank.unifyBreaks s.toList) else s)
  | none =>
    .error (.of .undecodable
      (((BadBytes.find? 0 none bytes.toList).map BadBytes.shown).getD "text is not UTF-8"))

end TestMigration
