import TestMigration.Text.Glyph

/-! Blank characters and line breaks: trimming, folding and splitting. -/

namespace TestMigration

/-- White space in the Unicode sense, together with the information separators. -/
def isBlank (c : Char) : Bool :=
  ('\t' ≤ c && c ≤ '\r') || ('\x1c' ≤ c && c ≤ ' ') || c == '\u0085' || c == '\u00A0' ||
    c == '\u1680' || ('\u2000' ≤ c && c ≤ '\u200A') || c == '\u2028' || c == '\u2029' ||
    c == '\u202F' || c == '\u205F' || c == '\u3000'

/-- The blank bytes of plain ASCII. -/
def isBlankByte (b : UInt8) : Bool := b == 32 || (9 ≤ b && b ≤ 13)

/-- Characters at which a text is cut into lines. -/
def isLineBreak (c : Char) : Bool :=
  ('\n' ≤ c && c ≤ '\r') || ('\x1c' ≤ c && c ≤ '\x1e') || c == '\u0085' || c == '\u2028' ||
    c == '\u2029'

namespace Blank

variable {α : Type}

/-- Drop what the test accepts at both ends. -/
def trimBy (test : α → Bool) (xs : List α) : List α :=
  ((xs.dropWhile test).reverse.dropWhile test).reverse

/-- The longest runs without an element that the test accepts. -/
def wordsBy (test : α → Bool) : List α → List (List α)
  | [] => []
  | x :: rest =>
    if test x then wordsBy test rest
    else match rest with
      | [] => [[x]]
      | y :: _ =>
        if test y then [x] :: wordsBy test rest
        else match wordsBy test rest with
          | [] => [[x]]
          | word :: words => (x :: word) :: words

def trim (s : String) : String := String.ofList (trimBy isBlank s.toList)

def words (s : String) : List String := (wordsBy isBlank s.toList).map String.ofList

/-- Runs of blanks, line breaks among them, become single spaces; none are left at the
ends. -/
def fold (t : Text) : Text :=
  Text.join [.char ' '] (wordsBy (Glyph.satisfies isBlank) t)

/-- The lines of a text, each with its line break if `keepEnds`. A carriage return and the
line feed after it are one break. -/
def linesFrom (keepEnds : Bool) : List Char → List Char → List String
  | [], [] => []
  | [], begun => [String.ofList begun.reverse]
  | '\r' :: '\n' :: rest, begun =>
    String.ofList (if keepEnds then '\n' :: '\r' :: begun else begun).reverse ::
      linesFrom keepEnds rest []
  | c :: rest, begun =>
    if isLineBreak c then
      String.ofList (if keepEnds then c :: begun else begun).reverse :: linesFrom keepEnds rest []
    else linesFrom keepEnds rest (c :: begun)

def lines (s : String) : List String := linesFrom false s.toList []

def linesWithEnds (s : String) : List String := linesFrom true s.toList []

/-- Every line break of a text file reads as a line feed. -/
def unifyBreaks : List Char → List Char
  | [] => []
  | '\r' :: '\n' :: rest => '\n' :: unifyBreaks rest
  | '\r' :: rest => '\n' :: unifyBreaks rest
  | c :: rest => c :: unifyBreaks rest

end Blank

end TestMigration
