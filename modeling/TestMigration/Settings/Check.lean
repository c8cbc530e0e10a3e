import TestMigration.Settings.Setting
import TestMigration.Text.Blank

/-! Settings that come from outside: each value that could do harm later is checked, in a fixed
order, and the first bad one is reported. -/

namespace TestMigration

namespace Setting

/-- Capitals of the letters that have plain ASCII capitals. -/
def plainCapital (c : Char) : String :=
  match c with
  | 'ı' => "I"
  | 'ſ' => "S"
  | 'ß' => "SS"
  | 'ﬀ' => "FF"
  | 'ﬁ' => "FI"
  | 'ﬂ' => "FL"
  | 'ﬃ' => "FFI"
  | 'ﬄ' => "FFL"
  | 'ﬅ' | 'ﬆ' => "ST"
  | c => c.toUpper.toString

def logLevels : List String := ["DEBUG", "INFO", "WARNING", "ERROR", "CRITICAL"]

private def isNameStart (c : Char) : Bool := c.isAlpha || c == '_'

private def isNameRest (c : Char) : Bool := c.isAlphanum || "_:.-".toList.contains c

/-- Names of attributes begin with a letter or an underscore. One line break at the end is
let pass. -/
def isAttributeName (name : String) : Bool :=
  match name.toList with
  | [] => false
  | c :: rest =>
    isNameStart c &&
      (rest.all isNameRest || (rest.getLast? == some '\n' && rest.dropLast.all isNameRest))

/-- The digits of a number; single underscores may stand between them. -/
private def digitsOf : List Char → Option (List Char)
  | [] => some []
  | '_' :: c :: rest => if c.isDigit then (digitsOf rest).map (c :: ·) else none
  | c :: rest => if c.isDigit then (digitsOf rest).map (c :: ·) else none

/-- A whole number in decimal digits, with a sign or without, blanks around it. -/
def wholeOfText? (text : String) : Option Int :=
  let (negative, body) := match (Blank.trim text).toList with
    | '-' :: rest => (true, rest)
    | '+' :: rest => (false, rest)
    | rest => (false, rest)
  match body with
  | c :: _ =>
    if !c.isDigit then none
    else (digitsOf body).map fun ds =>
      let n : Int := ds.foldl (fun n c => 10 * n + (c.toNat - '0'.toNat)) 0
      if negative then -n else n
  | [] => none

/-- A value as a whole number; what follows the point is cut off. -/
def whole (v : Value) : Except Failure Int :=
  match v with
  | .int n => return n
  | .bool b => return if b then 1 else 0
  | .decimal m places => return m.tdiv (Int.pow 10 places)
  | .text t =>
    match wholeOfText? t with
    | some n => return n
    | none =>
      throw (.of .badValue ("invalid literal for int() with base 10: " ++
        String.ofList ((Shown.quoted t).toList.take 200)))
  | _ => throw (.of .wrongType "not a number")

end Setting

namespace Settings

open Setting

private def refuse {α : Type} (setting : Setting) (message : String) : Except Failure α :=
  throw (.configuration message (some setting.key))

def checkAttribute (s : Settings) : Except Failure Unit :=
  let v := s.value .testIdAttribute
  let refusal : Except Failure Unit :=
    refuse .testIdAttribute s!"test_id_attribute must be a valid attribute name: {v.shown}"
  if !v.isTruthy then refusal
  else match v with
    | .text name => if isAttributeName name then return () else refusal
    | _ => throw (.of .wrongType "not a text")

def checkLogLevel (s : Settings) : Except Failure Unit :=
  let level := String.join ((s.text .logLevel).toList.map plainCapital)
  if logLevels.contains level then return ()
  else refuse .logLevel ("log_level must be one of " ++ ", ".intercalate logLevels)

def checkSize (s : Settings) : Except Failure Unit := do
  let size ← whole (s.value .maxFileSize)
  if 1 ≤ size && size ≤ 100 then return ()
  else refuse .maxFileSize "max_file_size_mb must be between 1 and 100"

def checkPatterns (s : Settings) : Except Failure Unit :=
  if s.flag .filePatterns then return ()
  else refuse .filePatterns "file_patterns cannot be empty"

def check (s : Settings) : Except Failure Unit := do
  s.checkAttribute
  s.checkLogLevel
  s.checkSize
  s.checkPatterns

/-- Checked settings from a record. Names that are not settings are left to others. -/
def ofEntries (entries : Entries) : Except Failure Settings := do
  let s ← standard.override (entries.filter fun (key, _) => (ofKey? key).isSome)
  s.check
  return s

/-- The settings that can be given by name when settings are made anew, and those names. -/
def creationKeys : List (String × Setting) :=
  (all.filter (· != .rootDirectory)).map fun s => (if s = .recurse then "recurse" else s.key, s)

/-- Checked settings from named values; no patterns of file names mean the usual ones. -/
def create (entries : Entries) : Except Failure Settings := do
  let s ← entries.foldlM (fun s (key, v) =>
    match creationKeys.find? (·.1 == key) with
    | some (_, setting) => return s.put setting v
    | none => throw (.of .wrongType s!"unexpected setting {Shown.quoted key}")) standard
  let s := if s.flag .filePatterns then s else s.put .filePatterns Setting.filePatterns.default
  s.check
  return s

end Settings

end TestMigration
