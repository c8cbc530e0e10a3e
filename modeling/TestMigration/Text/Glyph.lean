/-! Text that came out of an escaped literal can hold half of a surrogate pair, which no
`String` can. A `Text` is a list of glyphs: characters and such halves. Only text without
halves can be written out. -/

namespace TestMigration

/-- A character, or the lone surrogate `0xD800 + n`. -/
inductive Glyph where
  | char (c : Char)
  | lone (n : Fin 0x800)
  deriving DecidableEq, Repr, Inhabited

abbrev Text := List Glyph

namespace Glyph

/-- The glyph of a code point, if there is one. -/
def ofCodePoint? (n : Nat) : Option Glyph :=
  if h : n.isValidChar then some (.char (Char.ofNatAux n h))
  else if 0xD800 ≤ n then
    if h : n - 0xD800 < 0x800 then some (.lone ⟨n - 0xD800, h⟩) else none
  else none

def toChar? : Glyph → Option Char
  | .char c => some c
  | .lone _ => none

/-- A test on characters that no lone surrogate passes. -/
def satisfies (test : Char → Bool) : Glyph → Bool
  | .char c => test c
  | .lone _ => false

end Glyph

namespace Text

def ofString (s : String) : Text := s.toList.map .char

instance : Coe String Text := ⟨ofString⟩

/-- The text as a string; none if it holds a lone surrogate. -/
def toString? (t : Text) : Option String :=
  (t.mapM Glyph.toChar?).map String.ofList

/-- The text with the replacement character for each lone surrogate. -/
def shown (t : Text) : String :=
  String.ofList (t.map fun g => g.toChar?.getD '\uFFFD')

def startsWith (t piece : Text) : Bool := piece.isPrefixOf t

/-- Every suffix of a text, the longest first, the empty one last. -/
def suffixes : Text → List Text
  | [] => [[]]
  | g :: rest => (g :: rest) :: suffixes rest

def contains (t piece : Text) : Bool := t.suffixes.any piece.isPrefixOf

/-- Texts joined by a separator. -/
def join (separator : Text) (parts : List Text) : Text := separator.intercalate parts

/-- Pieces between occurrences of a glyph. -/
def splitOn (separator : Glyph) : Text → List Text
  | [] => [[]]
  | g :: rest =>
    if g == separator then [] :: splitOn separator rest
    else match splitOn separator rest with
      | [] => [[g]]
      | piece :: pieces => (g :: piece) :: pieces

end Text

end TestMigration
