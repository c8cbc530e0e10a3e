import TestMigration.Script.Reader

/-! The words, marks and literals of a script, and where a statement may end without a
semicolon. Keywords are contextual: a word that the grammar does not expect as a keyword at
some place is read there as a plain name. -/

namespace TestMigration.Script

/-- Characters that separate tokens. -/
def isSeparator (c : Char) : Bool :=
  c == ' ' || ('\t' ≤ c && c ≤ '\r') || c == '\u00A0' || c == '\u1680' ||
    ('\u2000' ≤ c && c ≤ '\u200B') || c == '\u2028' || c == '\u2029' || c == '\u202F' ||
    c == '\u205F' || c == '\u2060' || c == '\u3000' || c == '\uFEFF'

/-- Separators that may stand between a statement's end and its line's end. -/
def isLineBlank (c : Char) : Bool :=
  isSeparator c && !(c == '\u00A0' || c == '\u2007' || c == '\u200B' || c == '\u202F' ||
    c == '\u2060' || c == '\uFEFF')

def isMark (c : Char) : Bool :=
  [':', ';', '\x60', '"', '\'', '@', '#', '.', ',', '|', '^', '&', '<', '=', '>', '+', '-', '*',
    '/', '\\', '%', '?', '!', '~', '(', ')', '[', ']', '\x7b', '\x7d'].contains c

def isWordPart (c : Char) : Bool :=
  c.isAlphanum || (' ' < c && !isMark c && !isSeparator c)

def isWordStart (c : Char) : Bool :=
  isWordPart c && !c.isDigit

def isHexDigit (c : Char) : Bool :=
  c.isDigit || ('a' ≤ c && c ≤ 'f') || ('A' ≤ c && c ≤ 'F')

namespace Input

variable (i : Input)

/-- First offset from `p` on, within `fuel` characters, whose character fails the test. -/
def skipWhile (test : Char → Bool) : Nat → Nat → Nat
  | 0, p => p
  | fuel + 1, p =>
    match i.char? p with
    | some (c, w) => if test c then skipWhile test fuel (p + w) else p
    | none => p

def skip (test : Char → Bool) (p : Nat) : Nat :=
  i.skipWhile test (i.bytes.size + 1 - p) p

def is (p : Nat) (c : Char) : Bool :=
  match i.char? p with
  | some (d, _) => d == c
  | none => false

/-- End of the block comment whose body starts at `p`. -/
def blockCommentStop? : Nat → Nat → Option Nat
  | 0, _ => none
  | fuel + 1, p =>
    match i.char? p with
    | none => none
    | some (c, w) => if c == '*' && i.is (p + 1) '/' then some (p + 2)
      else blockCommentStop? fuel (p + w)

/-- End of the comment that starts at `p`. -/
def commentStop? (p : Nat) : Option Nat :=
  if i.holdsAt p "//" then
    some (i.skip (fun c => c != '\n' && c != '\r' && c != '\u2028' && c != '\u2029') (p + 2))
  else if i.holdsAt p "/*" then i.blockCommentStop? (i.bytes.size + 1 - p) (p + 2)
  else none

/-- Where the next token starts, and the comments before it added to those known. -/
def passTrivia : Nat → Nat → List Node → Nat × List Node
  | 0, p, comments => (p, comments)
  | fuel + 1, p, comments =>
    match i.char? p with
    | none => (p, comments)
    | some (c, w) =>
      if isSeparator c then passTrivia fuel (p + w) comments
      else if c == '/' then
        match i.commentStop? p with
        | some stop => passTrivia fuel stop (.mk none .comment p stop [] :: comments)
        | none => (p, comments)
      else (p, comments)

/-- End of the word that starts at `p`. A character may be written as an escape. -/
def wordPartStop? (start : Bool) (p : Nat) : Option Nat :=
  match i.char? p with
  | none => none
  | some (c, w) =>
    if c == '\\' then
      if i.holdsAt p "\\u\x7b" then
        let q := i.skip isHexDigit (p + 3)
        if p + 3 < q && i.is q '\x7d' then some (q + 1) else none
      else if i.is (p + 1) 'u' && i.skip isHexDigit (p + 2) ≥ p + 6 then some (p + 6)
      else none
    else if c == '\uFFFD' && w == 1 then none
    else if (if start then isWordStart c else isWordPart c) then some (p + w)
    else none

def wordTail : Nat → Nat → Nat
  | 0, p => p
  | fuel + 1, p =>
    match i.wordPartStop? false p with
    | some q => wordTail fuel q
    | none => p

def wordStop? (p : Nat) : Option Nat :=
  (i.wordPartStop? true p).map fun q => i.wordTail (i.bytes.size + 1 - q) q

/-- End of a run of digits with single underscores between them. -/
def digitsStop (test : Char → Bool) : Nat → Nat → Nat
  | 0, p => p
  | fuel + 1, p =>
    match i.char? p with
    | none => p
    | some (c, w) =>
      if test c then digitsStop test fuel (p + w)
      else if c == '_' then
        match i.char? (p + 1) with
        | some (d, _) => if test d then digitsStop test fuel (p + 2) else p
        | none => p
      else p

def digits (test : Char → Bool) (p : Nat) : Nat :=
  match i.char? p with
  | some (c, _) => if test c then i.digitsStop test (i.bytes.size + 1 - p) p else p
  | none => p

def exponentStop (p : Nat) : Nat :=
  if i.is p 'e' || i.is p 'E' then
    let q := if i.is (p + 1) '+' || i.is (p + 1) '-' then p + 2 else p + 1
    let r := i.digits Char.isDigit q
    if q < r then r else p
  else p

def withBigSuffix (p : Nat) : Nat :=
  if i.is p 'n' then p + 1 else p

def radixStop? (p : Nat) (marks : List Char) (test : Char → Bool) : Option Nat :=
  if i.is p '0' && marks.any (i.is (p + 1)) then
    let q := i.digits test (p + 2)
    if p + 2 < q then some (i.withBigSuffix q) else none
  else none

def numberStop? (p : Nat) : Option Nat :=
  i.radixStop? p ['x', 'X'] isHexDigit <|>
  i.radixStop? p ['b', 'B'] (fun c => c == '0' || c == '1') <|>
  i.radixStop? p ['o', 'O'] (fun c => '0' ≤ c && c ≤ '7') <|>
  let whole := i.digits Char.isDigit p
  if p < whole then
    if i.is whole '.' then some (i.exponentStop (i.digits Char.isDigit (whole + 1)))
    else if i.is whole 'n' then some (whole + 1)
    else some (i.exponentStop whole)
  else if i.is p '.' then
    let q := i.digits Char.isDigit (p + 1)
    if p + 1 < q then some (i.exponentStop q) else none
  else none

/-- End of the escape whose backslash stands at `p`. -/
def escapeStop? (p : Nat) : Option Nat :=
  match i.char? (p + 1) with
  | none => none
  | some (c, w) =>
    let hex (q n : Nat) := i.skip isHexDigit q ≥ q + n
    let octal (q : Nat) := match i.char? q with
      | some (d, _) => '0' ≤ d && d ≤ '7'
      | none => false
    if c == 'x' then if hex (p + 2) 2 then some (p + 4) else none
    else if c == 'u' then
      if i.is (p + 2) '\x7b' then
        let q := i.skip isHexDigit (p + 3)
        if p + 3 < q && i.is q '\x7d' then some (q + 1) else none
      else if hex (p + 2) 4 then some (p + 6) else none
    else if octal (p + 1) then
      some (if octal (p + 2) then if octal (p + 3) then p + 4 else p + 3 else p + 2)
    else if c == '\r' || c == '?' then
      match i.char? (p + 2) with
      | some (d, v) =>
        if d == '\n' || d == '\u2028' || d == '\u2029' then some (p + 2 + v) else some (p + 2)
      | none => some (p + 2)
    else some (p + 1 + w)

def fragment (start stop : Nat) (parts : List Node) : List Node :=
  if start < stop then .mk none .stringFragment start stop [] :: parts else parts

/-- The parts of a quoted literal and the offset past its closing quote; `from` is where the
running fragment began and `parts` are the earlier ones, the latest first. -/
def quotedParts? (quote : Char) : Nat → Nat → Nat → List Node → Option (List Node × Nat)
  | 0, _, _, _ => none
  | fuel + 1, begun, p, parts =>
    match i.char? p with
    | none => none
    | some (c, w) =>
      if c == quote then some ((fragment begun p parts).reverse, p + 1)
      else if c == '\\' then
        match i.escapeStop? p with
        | some stop => quotedParts? quote fuel stop stop
          (.mk none .escapeSequence p stop [] :: fragment begun p parts)
        | none => none
      else if c == '\n' || c == '\r' then none
      else quotedParts? quote fuel begun (p + w) parts

/-- The text of a template up to its end, an escape or a substitution. -/
def templateTextStop : Nat → Nat → Nat
  | 0, p => p
  | fuel + 1, p =>
    match i.char? p with
    | none => p
    | some (c, w) =>
      if c == '\x60' || c == '\\' then p
      else if c == '$' && i.is (p + 1) '\x7b' then p
      else templateTextStop fuel (p + w)

/-- End of the bracketed class of a regular expression whose body starts at `p`. -/
def regexClassStop? : Nat → Nat → Option Nat
  | 0, _ => none
  | fuel + 1, p =>
    match i.char? p with
    | none => none
    | some (c, w) =>
      if c == ']' then some (p + 1)
      else if c == '\n' then none
      else if c == '\\' then
        match i.char? (p + 1) with
        | some (d, v) => if d == '\n' then none else regexClassStop? fuel (p + 1 + v)
        | none => none
      else regexClassStop? fuel (p + w)

/-- Offset of the slash that ends the regular expression whose body starts at `p`. -/
def regexBodyStop? : Nat → Nat → Option Nat
  | 0, _ => none
  | fuel + 1, p =>
    match i.char? p with
    | none => none
    | some (c, w) =>
      if c == '/' then some p
      else if c == '\n' then none
      else if c == '[' then
        match i.regexClassStop? fuel (p + 1) with
        | some stop => regexBodyStop? fuel stop
        | none => none
      else if c == '\\' then
        match i.char? (p + 1) with
        | some (d, v) => if d == '\n' then none else regexBodyStop? fuel (p + 1 + v)
        | none => none
      else regexBodyStop? fuel (p + w)

/-- The marks that stand for one operator, the longest first. -/
def operators : List String :=
  [">>>=", "...", "===", "!==", "**=", "<<=", ">>=", ">>>", "&&=", "||=", "??=",
   "=>", "==", "!=", "<=", ">=", "&&", "||", "??", "?.", "++", "--", "+=", "-=", "*=", "/=",
   "%=", "&=", "|=", "^=", "<<", ">>", "**", "<", ">", "=", "!", "?", ":", "+", "-", "*", "/",
   "%", "&", "|", "^", "~", "."]

/-- Does the character at an offset begin an operator? -/
def startsOperator (p : Nat) : Bool :=
  match i.char? p with
  | some (c, _) => ['>', '.', '=', '!', '*', '<', '&', '|', '?', '+', '-', '/', '%', '^', ':',
      '~'].contains c
  | none => false

/-- The longest operator at an offset. `?.` before a digit is a question mark. -/
def operator? (p : Nat) : Option String :=
  match if i.startsOperator p then operators.find? (i.holdsAt p) else none with
  | some "?." =>
    match i.char? (p + 2) with
    | some (c, _) => if c.isDigit then some "?" else some "?."
    | none => some "?."
  | found => found

/-- Past blank space and comments, or nothing if a slash there starts no comment. -/
private def passLineBlanks? : Nat → Nat → Option Nat
  | 0, p => some p
  | fuel + 1, p =>
    match i.char? p with
    | none => some p
    | some (c, w) =>
      if isLineBlank c then passLineBlanks? fuel (p + w)
      else if c == '/' then
        if i.is (p + 1) '/' then
          passLineBlanks? fuel (i.skip (· != '\n') (p + 2))
        else if i.is (p + 1) '*' then
          passLineBlanks? fuel
            ((i.blockCommentStop? (i.bytes.size + 1 - p) (p + 2)).getD i.bytes.size)
        else none
      else some p

private def isLetterAt (p : Nat) : Bool :=
  match i.char? p with
  | some (c, _) => c.isAlpha || '\x7F' < c
  | none => false

/-- May a statement end before the line that goes on at `p`? Not where the line could
continue it; after an expression an opening bracket continues it too. -/
private def lineMayStart (afterExpression : Bool) (p : Nat) : Bool :=
  match i.char? p with
  | none => true
  | some (c, _) =>
    if "\x60,.;*%><=?^|&/:".toList.contains c then false
    else if c == '(' || c == '[' then !afterExpression
    else if c == '+' then i.is (p + 1) '+'
    else if c == '-' then i.is (p + 1) '-'
    else if c == '!' then !i.is (p + 1) '='
    else if c == 'i' then
      if !i.is (p + 1) 'n' then true
      else if !i.isLetterAt (p + 2) then false
      else !(i.holdsAt (p + 2) "stanceof" && !i.isLetterAt (p + 10))
    else true

/-- Where a statement whose last token or comment ends at `base` ends for want of a
semicolon: before a line break, a closing brace or the end of the script. Comments on the
same line belong to the statement. -/
def automaticEnd? (afterExpression : Bool) :
    Nat → Nat → Nat → List Node → Option (Nat × List Node)
  | 0, _, _, _ => none
  | fuel + 1, base, p, comments =>
    match i.char? p with
    | none => some (base, comments)
    | some (c, w) =>
      if c == '\x7d' then
        if i.is (i.skip isLineBlank (p + 1)) ':' && !afterExpression then none
        else some (base, comments)
      else if c == '\n' then
        match i.passLineBlanks? (i.bytes.size + 1 - p) (p + 1) with
        | some q => if i.lineMayStart afterExpression q then some (base, comments) else none
        | none => none
      else if isLineBlank c then automaticEnd? afterExpression fuel base (p + w) comments
      else
        match i.commentStop? p with
        | some stop => automaticEnd? afterExpression fuel stop stop
          (.mk none .comment p stop [] :: comments)
        | none => none

end Input

namespace Reader

/-- Go back to the end of the last token, forgetting the comments passed since. -/
def rewind : Reader Unit := fun _ c =>
  .ok () { c with pos := c.last, comments := c.comments.dropWhile (c.last ≤ ·.start) }

/-- Pass blank space and comments; yields the offset where the next token starts. -/
def skipTrivia : Reader Nat := fun i c =>
  let (p, comments) := i.passTrivia (i.bytes.size + 1 - c.pos) c.pos c.comments
  .ok p { c with pos := p, comments := comments }

/-- Take the bytes up to `stop` as part of a token. -/
def take (stop : Nat) : Reader Unit := fun _ c => .ok () { c with pos := stop, last := stop }

/-- A token whose end the scanner finds. -/
def token (scan : Input → Nat → Option Nat) : Reader (Nat × Nat) := do
  let start ← skipTrivia
  match scan (← input) start with
  | some stop => take stop; return (start, stop)
  | none => fail

def leaf (kind : Kind) (scan : Input → Nat → Option Nat) : Reader Node := do
  let (start, stop) ← token scan
  return .mk none kind start stop []

/-- A node around what `r` reads: from the first token to the last one taken. -/
def node (kind : Kind) (r : Reader (List Node)) : Reader Node := do
  let start ← skipTrivia
  let children ← r
  return .mk none kind start (← cursor).last children

/-- A node that continues one read before. -/
def nodeFrom (first : Node) (kind : Kind) (children : List Node) : Reader Node := do
  return .mk none kind first.start (← cursor).last children

def under (field : Field) (r : Reader Node) : Reader Node :=
  Node.withRole field <$> r

def one (r : Reader Node) : Reader (List Node) := ([·]) <$> r

def maybe (r : Reader Node) : Reader (List Node) :=
  one r <|> pure []

def punct (text : String) : Reader Unit := do
  let _ ← token fun i p => if i.holdsAt p text then some (p + text.utf8ByteSize) else none

/-- An operator, and no longer one that begins with it. -/
def operator (text : String) : Reader Unit := do
  let _ ← token fun i p =>
    if i.operator? p == some text then some (p + text.utf8ByteSize) else none

/-- The next operator, not taken. -/
def peekOperator : Reader (Option String) := do
  let p ← skipTrivia
  return (← input).operator? p

def opens (text : String) : Reader Bool := do
  let p ← skipTrivia
  return (← input).holdsAt p text

/-- The word at the next token, not taken. -/
def peekWord : Reader String := do
  let p ← skipTrivia
  let i ← input
  return match i.wordStop? p with
    | some stop => i.textOf p stop
    | none => ""

def keyword (text : String) : Reader Unit := do
  let _ ← token fun i p =>
    match i.wordStop? p with
    | some stop => if i.textOf p stop == text then some stop else none
    | none => none

/-- A keyword that is kept as a token. -/
def keywordToken (text : String) : Reader Node :=
  leaf (.token text) fun i p =>
    match i.wordStop? p with
    | some stop => if i.textOf p stop == text then some stop else none
    | none => none

/-- Any word at all. -/
def word (kind : Kind) : Reader Node := leaf kind Input.wordStop?

/-- A word outside the list. -/
def wordExcept (reserved : List String) (kind : Kind) : Reader Node :=
  leaf kind fun i p =>
    match i.wordStop? p with
    | some stop => if reserved.contains (i.textOf p stop) then none else some stop
    | none => none

/-- The next token stands on the line of the last one. -/
def sameLine : Reader Unit := do
  let c ← cursor
  let p ← skipTrivia
  let i ← input
  Reader.guard (i.skip (· != '\n') c.last ≥ p)

def atEnd : Reader Unit := do
  let p ← skipTrivia
  Reader.guard (p == (← input).bytes.size)

/-- The end of a statement that has no semicolon. -/
def automaticSemicolon (afterExpression : Bool) : Reader Unit := do
  rewind
  let i ← input
  let c ← cursor
  match i.automaticEnd? afterExpression (i.bytes.size + 2 - c.last) c.last c.last c.comments with
  | some (stop, comments) => fun _ c => .ok () { c with pos := stop, last := stop, comments }
  | none => fail

def semicolon (afterExpression : Bool) : Reader Unit :=
  punct ";" <|> automaticSemicolon afterExpression

/-- After a block a missing semicolon is no mistake, but it can lengthen the block. -/
def blockEnd (afterExpression : Bool) : Reader Unit :=
  automaticSemicolon afterExpression <|> pure ()

/-- Words that start an expression of their own and so never name a value. -/
def reservedWords : List String :=
  ["function", "class", "typeof", "void", "delete", "new", "await", "yield", "this", "super",
   "true", "false", "null", "undefined", "import"]

def number : Reader Node := leaf .number Input.numberStop?

def stringLiteral : Reader Node := do
  let start ← skipTrivia
  let i ← input
  let quote := if i.is start '\'' then '\'' else '"'
  Reader.guard (i.is start quote)
  match i.quotedParts? quote (i.bytes.size + 1 - start) (start + 1) (start + 1) [] with
  | some (parts, stop) => take stop; return .mk none .string start stop parts
  | none => fail

def regexLiteral : Reader Node := do
  let start ← skipTrivia
  let i ← input
  Reader.guard (i.is start '/')
  match i.regexBodyStop? (i.bytes.size + 1 - start) (start + 1) with
  | none => fail
  | some slash =>
    Reader.guard (start + 1 < slash)
    let stop := i.skip (fun c => 'a' ≤ c && c ≤ 'z') (slash + 1)
    take stop
    let body := Node.mk (some .target) .regexPattern (start + 1) slash []
    let flags := if slash + 1 < stop
      then [Node.mk (some .flags) .regexFlags (slash + 1) stop []] else []
    return .mk none .regex start stop (body :: flags)

def privateName : Reader Node :=
  leaf .privatePropertyIdentifier fun i p => if i.is p '#' then i.wordStop? (p + 1) else none

end Reader

end TestMigration.Script
