/-! Patterns of file names: a star stands for any characters, a question mark for one, and
brackets for one of several or, after an exclamation mark, for any other. -/

namespace TestMigration

inductive NamePart where
  | star
  | any
  | literal (c : Char)
  /-- One character in one of the ranges, or in none of them. -/
  | among (negated : Bool) (ranges : List (Char × Char))
  deriving DecidableEq, Repr, Inhabited

def NamePart.accepts (c : Char) : NamePart → Bool
  | .star | .any => true
  | .literal d => c == d
  | .among negated ranges => ranges.any (fun (a, b) => a ≤ c && c ≤ b) != negated

abbrev NamePattern := List NamePart

namespace NamePattern

/-- Ranges of a bracket's characters. A dash between two characters makes a range, an empty one if
they stand in the wrong order. -/
def rangesOf : List Char → List (Char × Char)
  | a :: '-' :: b :: rest => (a, b) :: rangesOf rest
  | a :: rest => (a, a) :: rangesOf rest
  | [] => []

/-- Characters up to the closing bracket, and what follows it. A closing bracket that comes
first counts as a character. -/
def splitBracket (cs : List Char) : Option (Bool × List Char × List Char) :=
  let (negated, body) := match cs with
    | '!' :: rest => (true, rest)
    | rest => (false, rest)
  let (first, later) := match body with
    | ']' :: rest => ([']'], rest)
    | rest => ([], rest)
  let inside := later.takeWhile (· != ']')
  if inside.length < later.length then
    some (negated, first ++ inside, later.drop (inside.length + 1))
  else none

/-- Read a pattern; `fuel` is at least the number of characters. A bracket that is not closed
stands for itself. -/
def readFrom : Nat → List Char → NamePattern
  | 0, _ => []
  | _, [] => []
  | fuel + 1, '*' :: rest => .star :: readFrom fuel rest
  | fuel + 1, '?' :: rest => .any :: readFrom fuel rest
  | fuel + 1, '[' :: rest =>
    match splitBracket rest with
    | some (negated, inside, after) => .among negated (rangesOf inside) :: readFrom fuel after
    | none => .literal '[' :: readFrom fuel rest
  | fuel + 1, c :: rest => .literal c :: readFrom fuel rest

def ofString (s : String) : NamePattern := readFrom s.length s.toList

/-- The rests of a list, the whole first and the empty one last. -/
def rests : List Char → List (List Char)
  | [] => [[]]
  | c :: cs => (c :: cs) :: rests cs

/-- Does the pattern describe the whole name? -/
def holds : NamePattern → List Char → Bool
  | [], cs => cs.isEmpty
  | .star :: rest, cs => (rests cs).any (holds rest)
  | part :: rest, cs =>
    match cs with
    | [] => false
    | c :: cs => NamePart.accepts c part && holds rest cs

def holdsOf (pattern name : String) : Bool := holds (ofString pattern) name.toList

/-- Does a text use any of the signs of patterns? -/
def isPattern (s : String) : Bool := s.toList.any fun c => c == '*' || c == '?' || c == '['

end NamePattern

end TestMigration
