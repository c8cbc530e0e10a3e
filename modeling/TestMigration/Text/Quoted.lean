import TestMigration.Text.Glyph

/-! String literals of a script. `decode` reads the body of any literal; `encode` writes a
double-quoted one; `requote` keeps the quote of a literal that is there already. -/

namespace TestMigration.Quoted

/-- An escape that names no code point. -/
structure BadCodePoint where
  value : Nat
  deriving DecidableEq, Repr

def hexValue? (c : Char) : Option Nat :=
  if '0' ≤ c && c ≤ '9' then some (c.toNat - '0'.toNat)
  else if 'a' ≤ c && c ≤ 'f' then some (c.toNat - 'a'.toNat + 10)
  else if 'A' ≤ c && c ≤ 'F' then some (c.toNat - 'A'.toNat + 10)
  else none

/-- Value of a run of hexadecimal digits; none if it is empty or holds anything else. -/
def hexNumber? : List Char → Option Nat
  | [] => none
  | cs => cs.foldlM (fun n c => (hexValue? c).map (16 * n + ·)) 0

/-- What a single escaped character stands for. A line feed continues the line. -/
def simpleEscape : Char → Text
  | 'n' => [.char '\n']
  | 't' => [.char '\t']
  | 'r' => [.char '\r']
  | 'b' => [.char '\x08']
  | 'f' => [.char '\x0c']
  | 'v' => [.char '\x0b']
  | '0' => [.char '\x00']
  | '\n' => []
  | c => [.char c]

/-- The escape after a backslash as a code point, and the number of characters it takes. -/
def numericEscape? : List Char → Option (Nat × Nat)
  | 'u' :: '\x7b' :: rest =>
    let digits := rest.takeWhile (hexValue? · |>.isSome)
    match hexNumber? digits, rest.drop digits.length with
    | some n, '\x7d' :: _ => some (n, digits.length + 3)
    | _, _ => none
  | 'u' :: a :: b :: c :: d :: _ => (hexNumber? [a, b, c, d]).map (·, 5)
  | 'x' :: a :: b :: _ => (hexNumber? [a, b]).map (·, 3)
  | _ => none

/-- The value of a literal's body. A backslash at the very end stands for itself. -/
def decodeWithin : Nat → List Char → Except BadCodePoint Text
  | 0, _ => .ok []
  | _, [] => .ok []
  | _, ['\\'] => .ok [.char '\\']
  | fuel + 1, '\\' :: c :: rest =>
    match numericEscape? (c :: rest) with
    | some (n, length) =>
      match Glyph.ofCodePoint? n with
      | some g => do return g :: (← decodeWithin fuel ((c :: rest).drop length))
      | none => .error ⟨n⟩
    | none => do return simpleEscape c ++ (← decodeWithin fuel rest)
  | fuel + 1, c :: rest => do return .char c :: (← decodeWithin fuel rest)

def decode (body : List Char) : Except BadCodePoint Text :=
  decodeWithin body.length body

def hexDigit (n : Nat) : Char :=
  if n < 10 then Char.ofNat (n + '0'.toNat) else Char.ofNat (n - 10 + 'a'.toNat)

/-- How a character is written between double quotes. -/
def escapeChar (c : Char) : List Char :=
  match c with
  | '"' => ['\\', '"']
  | '\\' => ['\\', '\\']
  | '\n' => ['\\', 'n']
  | '\r' => ['\\', 'r']
  | '\t' => ['\\', 't']
  | '\x08' => ['\\', 'b']
  | '\x0c' => ['\\', 'f']
  | c =>
    if c < ' ' then ['\\', 'u', '0', '0', hexDigit (c.toNat / 16), hexDigit (c.toNat % 16)]
    else [c]

def escapeGlyph : Glyph → Text
  | .char c => (escapeChar c).map .char
  | .lone n => [.lone n]

/-- A double-quoted literal. -/
def encode (t : Text) : Text :=
  .char '"' :: t.flatMap escapeGlyph ++ [.char '"']

/-- A literal with the quote of an existing one; without such a quote a double-quoted one. -/
def requote (existing : String) (t : Text) : Text :=
  match existing.toList with
  | quote :: _ =>
    if quote == '\'' || quote == '"' then
      let escape : Glyph → Text
        | .char c => if c == '\\' || c == quote then [.char '\\', .char c] else [.char c]
        | .lone n => [.lone n]
      .char quote :: t.flatMap escape ++ [.char quote]
    else encode t
  | [] => encode t

end TestMigration.Quoted
