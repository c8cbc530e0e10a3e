import TestMigration.Value
import TestMigration.Text.Expression

/-! What a plain scalar of a settings file stands for: nothing, a truth value, a number or
itself. -/

namespace TestMigration.Scalar

def isNull (s : String) : Bool := ["", "~", "null", "Null", "NULL"].contains s

def truth? (s : String) : Option Bool :=
  if ["yes", "Yes", "YES", "true", "True", "TRUE", "on", "On", "ON"].contains s then some true
  else if ["no", "No", "NO", "false", "False", "FALSE", "off", "Off", "OFF"].contains s then some false
  else none

private def fits (pattern s : String) : Bool :=
  ((Expression.ofString? pattern).map (·.matchesFully s.toList)).getD false

private def digit (c : Char) : Nat :=
  if c.isDigit then c.toNat - '0'.toNat else c.toLower.toNat - 'a'.toNat + 10

private def natOf (base : Nat) (cs : List Char) : Nat := cs.foldl (fun n c => base * n + digit c) 0

/-- The parts of a text between colons, each a power of sixty below the one before. -/
private def sixties (cs : List Char) : Nat :=
  ((String.ofList cs).splitOn ":").foldl (fun n part => 60 * n + natOf 10 part.toList) 0

/-- Sign and digits, without underscores. -/
private def signed (s : String) : Bool × List Char :=
  match s.toList.filter (· != '_') with
  | '-' :: rest => (true, rest)
  | '+' :: rest => (false, rest)
  | rest => (false, rest)

/-- A whole number: binary, octal, decimal, hexadecimal or in sixties. -/
def whole? (s : String) : Option Int :=
  let (negative, digits) := signed s
  let apply (n : Nat) : Option Int := some (if negative then -n else n)
  if fits "[-+]?0b[01_]+" s then apply (natOf 2 (digits.drop 2))
  else if fits "[-+]?0x[0-9a-fA-F_]+" s then apply (natOf 16 (digits.drop 2))
  else if fits "[-+]?0[0-7_]+" s then apply (natOf 8 digits)
  else if fits "[-+]?(0|[1-9][0-9_]*)" s then apply (natOf 10 digits)
  else if fits "[-+]?[1-9][0-9_]*(:[0-5]?[0-9])+" s then apply (sixties digits)
  else none

/-- A number with a point. A power of ten needs its sign. -/
def decimal? (s : String) : Option Value :=
  if fits "[-+]?[0-9][0-9_]*\\.[0-9_]*([eE][-+][0-9]+)?" s ||
      fits "\\.[0-9][0-9_]*([eE][-+][0-9]+)?" s then
    let (negative, body) := signed s
    let isMark (c : Char) : Bool := c == 'e' || c == 'E'
    let before := body.takeWhile fun c => !isMark c
    let power := (body.dropWhile fun c => !isMark c).drop 1
    let places := ((before.dropWhile (· != '.')).drop 1).length
    let n := natOf 10 (before.filter (· != '.'))
    let exponent := natOf 10 (power.drop 1)
    let (n, places) :=
      if power.head? == some '-' then (n, places + exponent)
      else (n * Nat.pow 10 (exponent - places), places - exponent)
    some (.decimal (if negative then -n else n) places)
  else none

def value (s : String) : Value :=
  if isNull s then .null
  else match truth? s with
    | some b => .bool b
    | none => match whole? s with
      | some n => .int n
      | none => (decimal? s).getD (.text s)

/-- A scalar whose kind is stated. -/
def ofKind? (kind s : String) : Option Value :=
  match kind with
  | "str" => some (.text s)
  | "null" => some .null
  | "bool" => (truth? s).map .bool
  | "int" => (whole? s).map .int
  | "float" => (decimal? s).or ((whole? s).map (.decimal · 0))
  | _ => none

end TestMigration.Scalar
