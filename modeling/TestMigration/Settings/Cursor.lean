import TestMigration.Value

/-! Reading a settings file: where reading stands, what is passed over between two items, and
scalars. Indentation is by spaces; a tab is refused wherever it is not part of a text. -/

namespace TestMigration.Layout

def isBreak (c : Char) : Bool := c == '\n' || c == '\r' || c == '\u0085' || c == '\u2028' || c == '\u2029'

/-- A blank, or the end of the text. -/
def isGapBefore : List Char → Bool
  | [] => true
  | c :: _ => c == ' ' || c == '\t' || isBreak c

/-- What is still to be read, with line and column, both from zero, and the values that have been
given a name so far. -/
structure Cursor where
  rest : List Char
  line : Nat := 0
  column : Nat := 0
  named : List (String × Value) := []
  deriving Repr, Inhabited

namespace Cursor

def next (c : Cursor) : Cursor :=
  match c.rest with
  | [] => c
  | x :: rest =>
    if isBreak x then { c with rest, line := c.line + 1, column := 0 }
    else { c with rest, column := c.column + 1 }

/-- Move on within a line. -/
def along (c : Cursor) (n : Nat) : Cursor :=
  { c with rest := c.rest.drop n, column := c.column + n }

def head? (c : Cursor) : Option Char := c.rest.head?

/-- Do three signs stand here that separate documents? -/
def isMarker (c : Cursor) (sign : Char) : Bool :=
  c.column == 0 && [sign, sign, sign].isPrefixOf c.rest && isGapBefore (c.rest.drop 3)

def atMarker (c : Cursor) : Bool := c.isMarker '-' || c.isMarker '.'

/-- Has the document come to its end? -/
def atEnd (c : Cursor) : Bool := c.rest.isEmpty || c.atMarker

/-- Does a sign stand here that counts only before a blank? -/
def isSign (c : Cursor) (sign : Char) : Bool :=
  match c.rest with
  | x :: rest => x == sign && isGapBefore rest
  | [] => false

private def itemFrom (inComment : Bool) (line column : Nat) :
    List Char → List Char × Nat × Nat
  | [] => ([], line, column)
  | x :: rest =>
    if isBreak x then itemFrom false (line + 1) 0 rest
    else if inComment || x == ' ' then itemFrom inComment line (column + 1) rest
    else if x == '#' then itemFrom true line (column + 1) rest
    else (x :: rest, line, column)

/-- The next item, behind spaces, line breaks and comments. -/
def item (c : Cursor) : Cursor :=
  let (rest, line, column) := itemFrom false c.line c.column c.rest
  { c with rest, line, column }

end Cursor

/-! ## Plain scalars -/

/-- Signs of lists and records between brackets. -/
def isFlowSign (c : Char) : Bool := c == ',' || c == '[' || c == ']' || c == '{' || c == '}'

/-- Does a plain scalar end before `c`? `inFlow` within brackets. -/
def endsPlain (inFlow : Bool) (c : Char) (rest : List Char) : Bool :=
  c == ' ' || c == '\t' || isBreak c ||
    (c == ':' && (isGapBefore rest || (inFlow && rest.head?.any isFlowSign))) ||
    (inFlow && (isFlowSign c || c == '?'))

def plainRun (inFlow : Bool) : List Char → List Char
  | [] => []
  | c :: rest => if endsPlain inFlow c rest then [] else c :: plainRun inFlow rest

/-- May a plain scalar begin here? -/
def beginsPlain (inFlow : Bool) : List Char → Bool
  | [] => false
  | c :: rest =>
    if c == '-' || (!inFlow && (c == '?' || c == ':')) then !isGapBefore rest
    else !(c == ' ' || c == '\t' || isBreak c || "-?:,[]\x7b\x7d#&*!|>'\"%@\x60".toList.contains c)

/-- Line breaks within a scalar: one is a space, of more the first is dropped. A break other than
a line feed stays. -/
def foldBreaks : List Char → List Char
  | [] => []
  | ['\n'] => [' ']
  | '\n' :: more => more
  | first :: more => first :: more

/-- Spaces, line breaks and indentation after a line break; yields the breaks, and stops at a marker
or at what is neither. -/
private def breaksFrom (blank : Char → Bool) (line column : Nat) (found : List Char) :
    List Char → List Char × List Char × Nat × Nat
  | [] => (found.reverse, [], line, column)
  | x :: rest =>
    if ({ rest := x :: rest, column } : Cursor).atMarker then
      (found.reverse, x :: rest, line, column)
    else if isBreak x then breaksFrom blank (line + 1) 0 (x :: found) rest
    else if blank x then breaksFrom blank line (column + 1) found rest
    else (found.reverse, x :: rest, line, column)

def breaks (blank : Char → Bool) (c : Cursor) : List Char × Cursor :=
  let (found, rest, line, column) := breaksFrom blank c.line c.column [] c.rest
  (found, { c with rest, line, column })

/-- What stands between two runs of a plain scalar, as it counts in its text; none if nothing
does. -/
private def plainGap (c : Cursor) : List Char × Cursor :=
  let spaces := c.rest.takeWhile (· == ' ')
  let after := c.along spaces.length
  match after.rest with
  | x :: _ =>
    if isBreak x then
      let (found, c) := breaks (· == ' ') after
      if c.atMarker then ([], c) else (foldBreaks found, c)
    else (spaces, after)
  | [] => (spaces, after)

private def plainFrom (inFlow : Bool) (indent : Int) :
    Nat → List Char → List Char → Cursor → List Char × Cursor
  | 0, text, _, c => (text, c)
  | fuel + 1, text, gap, c =>
    let run := plainRun inFlow c.rest
    if run.isEmpty then (text, c)
    else
      let text := text ++ gap ++ run
      let (gap, c) := plainGap (c.along run.length)
      if gap.isEmpty || c.head? == some '#' || (!inFlow && (c.column : Int) ≤ indent) then (text, c)
      else plainFrom inFlow indent fuel text gap c

/-- A plain scalar in a part with indentation `indent`. -/
def plain (inFlow : Bool) (indent : Int) (c : Cursor) : String × Cursor :=
  let (text, c) := plainFrom inFlow indent (c.rest.length + 1) [] [] c
  (String.ofList text, c)

/-! ## Quoted scalars -/

private def hexDigit? (c : Char) : Option Nat :=
  if c.isDigit then some (c.toNat - '0'.toNat)
  else if 'a' ≤ c && c ≤ 'f' then some (c.toNat - 'a'.toNat + 10)
  else if 'A' ≤ c && c ≤ 'F' then some (c.toNat - 'A'.toNat + 10)
  else none

private def namedEscape? : Char → Option Char
  | '0' => some '\x00'
  | 'a' => some '\x07'
  | 'b' => some '\x08'
  | 't' | '\t' => some '\t'
  | 'n' => some '\n'
  | 'v' => some '\x0b'
  | 'f' => some '\x0c'
  | 'r' => some '\r'
  | 'e' => some '\x1b'
  | ' ' => some ' '
  | '"' => some '"'
  | '\\' => some '\\'
  | '/' => some '/'
  | 'N' => some '\u0085'
  | '_' => some '\u00A0'
  | 'L' => some '\u2028'
  | 'P' => some '\u2029'
  | _ => none

private def escapeWidth? : Char → Option Nat
  | 'x' => some 2
  | 'u' => some 4
  | 'U' => some 8
  | _ => none

/-- The character of an escape, after its backslash, and how many characters the escape takes. -/
private def escape? : List Char → Option (Char × Nat)
  | [] => none
  | c :: rest =>
    match escapeWidth? c with
    | some width => do
      let digits ← (rest.take width).mapM hexDigit?
      if digits.length < width then none
      let n := digits.foldl (fun n d => 16 * n + d) 0
      if n.isValidChar then some (Char.ofNat n, width + 1) else none
    | none => (namedEscape? c).map (·, 1)

/-- Read up to the closing quote. -/
private def quotedFrom (double : Bool) : Nat → List Char → Cursor → Option (String × Cursor)
  | 0, _, _ => none
  | fuel + 1, text, c =>
    match c.rest with
    | [] => none
    | x :: rest =>
      if x == ' ' || x == '\t' || isBreak x then
        let spaces := c.rest.takeWhile fun y => y == ' ' || y == '\t'
        let after := c.along spaces.length
        match after.rest with
        | [] => none
        | y :: _ =>
          if isBreak y then
            let (found, c) := breaks (fun y => y == ' ' || y == '\t') after
            if c.atMarker then none else quotedFrom double fuel (text ++ foldBreaks found) c
          else quotedFrom double fuel (text ++ spaces) after
      else if double && x == '\\' then
        match rest with
        | [] => none
        | y :: _ =>
          if isBreak y then
            let (found, c) := breaks (fun y => y == ' ' || y == '\t') c.next
            if c.atMarker then none else quotedFrom double fuel (text ++ found.drop 1) c
          else match escape? rest with
            | some (z, width) => quotedFrom double fuel (text ++ [z]) (c.along (width + 1))
            | none => none
      else if double && x == '"' then some (String.ofList text, c.next)
      else if !double && x == '\'' then
        if rest.head? == some '\'' then quotedFrom double fuel (text ++ ['\'']) (c.along 2)
        else some (String.ofList text, c.next)
      else quotedFrom double fuel (text ++ [x]) c.next

/-- A quoted scalar from its opening quote on. -/
def quoted (c : Cursor) : Option (String × Cursor) :=
  quotedFrom (c.head? == some '"') (c.rest.length + 1) [] c.next

/-! ## Block scalars -/

/-- What a block scalar's header asks for: which breaks at the end are kept, if not just one, and an
explicit indentation. -/
private def blockHeader (line : List Char) : Option (Option Bool × Option Nat) :=
  let signs := line.takeWhile fun x => x == '+' || x == '-' || x.isDigit
  let after := line.drop signs.length
  let clean := match after.dropWhile (· == ' ') with
    | [] => true
    | x :: _ => x == '#'
  if !clean then none
  else match signs with
    | [] => some (none, none)
    | ['+'] => some (some true, none)
    | ['-'] => some (some false, none)
    | [d] => digit? d none
    | [s, d] =>
      if s == '+' || s == '-' then digit? d (some (s == '+'))
      else if d == '+' || d == '-' then digit? s (some (d == '+'))
      else none
    | _ => none
where
  digit? (d : Char) (keep : Option Bool) : Option (Option Bool × Option Nat) :=
    if d.isDigit && d != '0' then some (keep, some (d.toNat - '0'.toNat)) else none

/-- Lines of a block scalar. `gap` holds the breaks since the last line of text. -/
private def blockLines (folded : Bool) (keep : Option Bool) (indent : Nat) :
    Nat → List Char → List Char → Bool → Cursor → String × Cursor
  | 0, text, _, _, c => (String.ofList text, c)
  | fuel + 1, text, gap, wasText, c =>
    let spaces := (c.rest.takeWhile (· == ' ')).length
    let here := c.along (min spaces indent)
    match here.rest with
    | x :: _ =>
      if isBreak x then blockLines folded keep indent fuel text (gap ++ [x]) wasText here.next
      else if spaces < indent || here.atMarker then (finish text gap, c)
      else
        let line := here.rest.takeWhile fun y => !isBreak y
        let isText := !(x == ' ' || x == '\t')
        let joint :=
          if folded && wasText && isText && gap.head? == some '\n' then foldBreaks gap else gap
        let after := here.along line.length
        match after.rest with
        | [] => (String.ofList (text ++ joint ++ line), after)
        | y :: _ => blockLines folded keep indent fuel (text ++ joint ++ line) [y] isText after.next
    | [] => (finish text gap, here)
where
  finish (text gap : List Char) : String :=
    String.ofList (match keep with
      | none => text ++ (if text.isEmpty then [] else gap.take 1)
      | some true => text ++ gap
      | some false => text)

/-- The indentation of the first line that is not empty, but at least `least`. -/
private def blockIndent (least : Nat) : Nat → Nat → Cursor → Nat
  | 0, most, _ => max least most
  | fuel + 1, most, c =>
    let spaces := (c.rest.takeWhile (· == ' ')).length
    let here := c.along spaces
    match here.rest with
    | x :: _ => if isBreak x then blockIndent least fuel (max most spaces) here.next
      else max least (max most spaces)
    | [] => max least (max most spaces)

/-- A block scalar from its sign on, in a part with indentation `indent`. -/
def block (indent : Int) (c : Cursor) : Option (String × Cursor) := do
  let folded := c.head? == some '>'
  let header := (c.rest.drop 1).takeWhile fun x => !isBreak x
  let (keep, explicit) ← blockHeader header
  let body := (c.along (header.length + 1)).next
  let least := (indent + 1).toNat.max 1
  let width := match explicit with
    | some d => least + d - 1
    | none => blockIndent least (body.rest.length + 1) 0 body
  return blockLines folded keep width (body.rest.length + 1) [] [] false body

end TestMigration.Layout
