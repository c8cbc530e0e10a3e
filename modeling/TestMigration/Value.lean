import TestMigration.Text.Printable

/-! Plain data as settings files and metadata hold it, and how it is shown in messages. -/

namespace TestMigration

/-- `decimal mantissa places` is the number `mantissa / 10 ^ places`. Entries of a record
keep their order. -/
inductive Value where
  | null
  | bool (b : Bool)
  | int (n : Int)
  | decimal (mantissa : Int) (places : Nat)
  | text (s : String)
  | list (items : List Value)
  | record (entries : List (String × Value))
  deriving Repr, Inhabited

/-- A record's entries in the order of their first insertion. -/
abbrev Entries := List (String × Value)

namespace Entries

def get? (es : Entries) (key : String) : Option Value :=
  (es.find? (·.1 == key)).map (·.2)

/-- Set a key where it stands, or add it at the end. -/
def put (es : Entries) (key : String) (v : Value) : Entries :=
  if es.any (·.1 == key) then es.map fun e => if e.1 == key then (key, v) else e
  else es ++ [(key, v)]

end Entries

namespace Shown

def hex (width n : Nat) : String :=
  let digits := Nat.toDigits 16 n
  String.ofList (List.replicate (width - digits.length) '0' ++ digits)

def quotedChar (quote c : Char) : String :=
  if c == quote || c == '\\' then "\\" ++ c.toString
  else if c == '\n' then "\\n"
  else if c == '\r' then "\\r"
  else if c == '\t' then "\\t"
  else if isPrintable c then c.toString
  else if c.toNat ≤ 0xFF then "\\x" ++ hex 2 c.toNat
  else if c.toNat ≤ 0xFFFF then "\\u" ++ hex 4 c.toNat
  else "\\U" ++ hex 8 c.toNat

/-- A string between quotes: single ones unless only a single quote occurs in it. -/
def quoted (s : String) : String :=
  let quote := if s.contains '\'' && !s.contains '"' then '"' else '\''
  quote.toString ++ String.join (s.toList.map (quotedChar quote)) ++ quote.toString

/-- Drop zeros at the end of a decimal's places. -/
def trimPlaces : Nat → Nat → Nat × Nat
  | m, 0 => (m, 0)
  | m, places + 1 => if m % 10 == 0 then trimPlaces (m / 10) places else (m, places + 1)

/-- Positional from 0.0001 up to below 10 ^ 16, with an exponent outside. -/
def decimal (mantissa : Int) (places : Nat) : String :=
  let sign := if mantissa < 0 then "-" else ""
  let (m, places) := trimPlaces mantissa.natAbs places
  let digits := (Nat.toDigits 10 m)
  let point : Int := (digits.length : Int) - places
  let body :=
    if m == 0 then "0.0"
    else if -4 < point && point ≤ 16 then
      if places == 0 then String.ofList digits ++ ".0"
      else if point ≤ 0 then
        "0." ++ String.ofList (List.replicate point.natAbs '0' ++ digits)
      else String.ofList (digits.take point.toNat) ++ "." ++ String.ofList (digits.drop point.toNat)
    else
      let digits := (digits.reverse.dropWhile (· == '0')).reverse
      let exponent := point - 1
      let power := String.ofList (Nat.toDigits 10 exponent.natAbs)
      let power := if power.length < 2 then "0" ++ power else power
      String.ofList (digits.take 1) ++
        (if digits.length > 1 then "." ++ String.ofList (digits.drop 1) else "") ++
        "e" ++ (if exponent < 0 then "-" else "+") ++ power
  sign ++ body

end Shown

namespace Value

mutual

/-- A value as it is shown inside another one: strings are quoted. -/
def shown : Value → String
  | null => "None"
  | bool true => "True"
  | bool false => "False"
  | int n => toString n
  | decimal m places => Shown.decimal m places
  | text s => Shown.quoted s
  | list items => "[" ++ ", ".intercalate (shownItems items) ++ "]"
  | record entries => "\x7b" ++ ", ".intercalate (shownEntries entries) ++ "\x7d"

def shownItems : List Value → List String
  | [] => []
  | v :: rest => shown v :: shownItems rest

def shownEntries : List (String × Value) → List String
  | [] => []
  | (key, v) :: rest => (Shown.quoted key ++ ": " ++ shown v) :: shownEntries rest

end

/-- A value as it is shown on its own: a string is its own text. -/
def display : Value → String
  | text s => s
  | v => v.shown

/-- Empty and zero values count as absent. -/
def isTruthy : Value → Bool
  | null => false
  | bool b => b
  | int n => n != 0
  | decimal m _ => m != 0
  | text s => s != ""
  | list items => !items.isEmpty
  | record entries => !entries.isEmpty

def ofStrings (items : List String) : Value := .list (items.map .text)

def ofOption : Option String → Value
  | none => .null
  | some s => .text s

end Value

end TestMigration
