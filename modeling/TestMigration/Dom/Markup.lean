import TestMigration.Dom.Reference
import TestMigration.Text.Blank

/-! The pieces of a markup text: tags, runs of text and what stands aside of both. Nothing is
refused; what does not read as a tag is text. A text is read twice over: what looks cut off
is left for the second reading, which takes it as it is. -/

namespace TestMigration.Markup

/-- `aside` stands for comments, processing instructions and declarations. -/
inductive Piece where
  | opening (name : String) (attrs : List (String × String)) (closed : Bool)
  | closing (name : String)
  | text (s : String)
  | quoted (s : String)
  | aside
  deriving Repr, Inhabited

/-- `raw` is the open element whose content holds no tags. -/
structure Reading where
  pieces : List Piece
  raw : Option String
  rest : List Char

private def str (cs : List Char) : String := String.ofList cs

private def isTagSpace (c : Char) : Bool :=
  c == '\t' || c == '\n' || c == '\r' || c == '\x0c' || c == ' '

private def isTagNameChar (c : Char) : Bool :=
  !(isTagSpace c || c == '/' || c == '>' || c == '\x00')

/-- A tag's name, lower-cased, and what follows it. -/
def tagName? : List Char → Option (String × List Char)
  | [] => none
  | c :: rest =>
    if c.isAlpha then
      let tail := rest.takeWhile isTagNameChar
      some ((str (c :: tail)).toLower, rest.drop tail.length)
    else none

/-- Blanks and slashes between attributes; the slash that ends a tag is none. -/
private def skipBetween (before : Char) : List Char → Char × List Char
  | '/' :: '>' :: rest => (before, '/' :: '>' :: rest)
  | c :: rest => if isBlank c || c == '/' then skipBetween c rest else (before, c :: rest)
  | [] => (before, [])

/-- A value at the head of a text, without its quotes; none if a quote is not closed. -/
private def value? : List Char → Option (String × Char × List Char)
  | [] => some ("", '=', [])
  | c :: rest =>
    if c == '\'' || c == '"' then
      let inner := rest.takeWhile (· != c)
      match rest.drop inner.length with
      | [] => none
      | _ :: after => some (str inner, c, after)
    else
      let inner := (c :: rest).takeWhile fun c => !(c == '>' || isBlank c)
      some (str inner, inner.getLastD '=', (c :: rest).drop inner.length)

/-- The attributes from here on, the character before the rest, and the rest. -/
private def attributes : Nat → Char → List Char → List (String × String) × Char × List Char
  | 0, before, cs => ([], before, cs)
  | _, before, [] => ([], before, [])
  | fuel + 1, before, c :: rest =>
    if !(before == '\'' || before == '"' || before == '/' || isBlank before) ||
        isBlank c || c == '/' || c == '>' then ([], before, c :: rest)
    else
      let tail := rest.takeWhile fun c => !(isBlank c || c == '/' || c == '=' || c == '>')
      let name := (str (c :: tail)).toLower
      let after := rest.drop tail.length
      let bare := (name, "", tail.getLastD c, after)
      let (name, value, before, after) :=
        match after.dropWhile isBlank with
        | '=' :: more =>
          match value? ((more.dropWhile (· == '=')).dropWhile isBlank) with
          | some (value, before, after) => (name, Reference.expand value, before, after)
          | none => bare
        | _ => bare
      let (before, after) := skipBetween before after
      let (others, before, after) := attributes fuel before after
      ((name, value) :: others, before, after)

/-- How a text after `<` reads as an opening tag: `cut` if it may go on. -/
private inductive Opening where
  | cut
  | junk (s : String) (rest : List Char)
  | tag (piece : Piece) (rest : List Char)

private def opening (cs : List Char) : Opening :=
  match tagName? cs with
  | none => .cut
  | some (name, after) =>
    let (before, after) := skipBetween (cs.head?.getD '<') after
    let (attrs, _, after) := attributes after.length before after
    match after with
    | '>' :: rest => .tag (.opening name attrs false) rest
    | '/' :: '>' :: rest => .tag (.opening name attrs true) rest
    | [] => .cut
    | c :: _ =>
      if c.isAlpha || c == '=' || c == '/' then .cut
      else .junk (str ('<' :: cs.take (cs.length - after.length))) after

/-- The text up to a mark and the text after it. -/
def splitAt? (mark : List Char) : List Char → Option (List Char × List Char)
  | [] => none
  | c :: rest =>
    if mark.isPrefixOf (c :: rest) then some ([], (c :: rest).drop mark.length)
    else (splitAt? mark rest).map fun (head, tail) => (c :: head, tail)

/-- The text after the end of a comment. -/
private def afterComment? : List Char → Option (List Char)
  | [] => none
  | '-' :: rest =>
    match rest with
    | '-' :: more =>
      match more.dropWhile isBlank with
      | '>' :: after => some after
      | _ => afterComment? rest
    | _ => afterComment? rest
  | _ :: rest => afterComment? rest

/-- Content and rest of a section that two brackets close. -/
private def sectionEnd? : List Char → Option (List Char × List Char)
  | [] => none
  | c :: rest =>
    let further := (sectionEnd? rest).map fun (head, tail) => (c :: head, tail)
    if c == ']' then
      match rest.dropWhile isBlank with
      | ']' :: more =>
        match more.dropWhile isBlank with
        | '>' :: after => some ([], after)
        | _ => further
      | _ => further
    else further

private def startsWithWord (word : String) (cs : List Char) : Bool :=
  (str (cs.take word.length)).toLower == word

/-- What begins with `<!`, read as one piece. -/
private def declaration? (cs : List Char) : Option (Piece × List Char) :=
  match cs with
  | '-' :: '-' :: rest => (afterComment? rest).map (.aside, ·)
  | '[' :: rest =>
    (sectionEnd? rest).map fun (content, after) =>
      if startsWithWord "cdata[" content then (.quoted (str (content.drop 6)), after)
      else (.aside, after)
  | rest => (splitAt? ['>'] rest).map fun (_, after) => (.aside, after)

/-- What begins with `</`, read as one piece, if it closes an element. -/
private def closing? (cs : List Char) : Option (Option Piece × List Char) :=
  match splitAt? ['>'] cs with
  | none => none
  | some (_, afterMark) =>
    match tagName? (cs.dropWhile isBlank) with
    | some (name, after) =>
      if isBlank (cs.headD 'x') && !((after.dropWhile isBlank).head? == some '>') then
        some (some .aside, afterMark)
      else (splitAt? ['>'] after).map fun (_, rest) => (some (.closing name), rest)
    | none => some (if cs.head? == some '>' then none else some .aside, afterMark)

/-- The text up to the tag that closes a raw element, and the text after that tag. -/
private def rawEnd? (name : String) : List Char → Option (List Char × List Char)
  | [] => none
  | c :: rest =>
    let further := (rawEnd? name rest).map fun (head, tail) => (c :: head, tail)
    if c == '<' then
      match rest with
      | '/' :: more =>
        let more := more.dropWhile isBlank
        if startsWithWord name more then
          match (more.drop name.length).dropWhile isBlank with
          | '>' :: after => some ([], after)
          | _ => further
        else further
      | _ => further
    else further

private def isEntityChar (c : Char) : Bool := c.isAlphanum || c == '-' || c == '.'

/-- A reference after `&`: its text and what follows; `none` if it does not read as one. -/
private def reference? (cs : List Char) : Option (String × List Char) :=
  let dropSemicolon (after : List Char) := if after.head? == some ';' then after.drop 1 else after
  match cs with
  | '#' :: rest =>
    match Reference.number? rest with
    | some (n, c :: after) =>
      if Reference.isHexDigit c then none
      else some ((Reference.ofNumber n).toString, dropSemicolon (c :: after))
    | _ => none
  | c :: rest =>
    if !c.isAlpha then none
    else
      let tail := rest.takeWhile isEntityChar
      match rest.drop tail.length with
      | [] =>
        -- the last character that is no letter or digit can end the name
        let shorter := (tail.reverse.dropWhile Char.isAlphanum).reverse
        if shorter.isEmpty then none
        else
          let name := str (c :: shorter.dropLast)
          let text := match Reference.ofName? name with
            | some c => c.toString
            | none => "&" ++ name
          some (text, rest.drop (shorter.length - 1))
      | after =>
        let name := str (c :: tail)
        let text := match Reference.ofName? name with
          | some c => c.toString
          | none => "&" ++ name
        some (text, dropSemicolon after)
  | [] => none

/-- A cut-off tag taken as text: up to and with the next `>`, else up to the next `<`. -/
private def cutText (cs : List Char) : List Char × List Char :=
  match splitAt? ['>'] (cs.drop 1) with
  | some (head, rest) => (cs.take 1 ++ head ++ ['>'], rest)
  | none =>
    let head := (cs.drop 1).takeWhile (· != '<')
    if head.length + 1 == cs.length then (cs.take 1, cs.drop 1)
    else (cs.take 1 ++ head, cs.drop (head.length + 1))

/-- Read a text; `last` tells that nothing follows it. -/
private def readFrom (last : Bool) : Nat → Option String → List Char → List Piece → Reading
  | 0, raw, cs, done => ⟨done, raw, cs⟩
  | _, raw, [], done => ⟨done, raw, []⟩
  | fuel + 1, some name, cs, done =>
    match rawEnd? name cs with
    | none => ⟨done, some name, cs⟩
    | some (content, after) =>
      let done := if content.isEmpty then done else .text (str content) :: done
      readFrom last fuel none after (.closing name :: done)
  | fuel + 1, none, '<' :: cs, done =>
    let stuck : Reading :=
      if last then
        let (text, rest) := cutText ('<' :: cs)
        readFrom last fuel none rest (.text (str text) :: done)
      else ⟨done, none, '<' :: cs⟩
    match cs with
    | [] => ⟨done, none, ['<']⟩
    | '/' :: rest =>
      match closing? rest with
      | none => stuck
      | some (piece, rest) => readFrom last fuel none rest (piece.toList ++ done)
    | '!' :: rest =>
      match declaration? rest with
      | none => stuck
      | some (piece, rest) => readFrom last fuel none rest (piece :: done)
    | '?' :: rest =>
      match splitAt? ['>'] rest with
      | none => stuck
      | some (_, rest) => readFrom last fuel none rest (.aside :: done)
    | c :: rest =>
      if !c.isAlpha then readFrom last fuel none (c :: rest) (.text "<" :: done)
      else match opening (c :: rest) with
        | .cut => stuck
        | .junk s rest => readFrom last fuel none rest (.text s :: done)
        | .tag piece rest =>
          let raw := match piece with
            | .opening name _ false => if name == "script" || name == "style" then some name else none
            | _ => none
          readFrom last fuel raw rest (piece :: done)
  | fuel + 1, none, '&' :: cs, done =>
    match reference? cs with
    | some (text, rest) => readFrom last fuel none rest (.text text :: done)
    | none =>
      match cs with
      | '#' :: rest =>
        if cs.contains ';' then ⟨.text "&#" :: done, none, rest⟩ else ⟨done, none, '&' :: cs⟩
      | [c] => if c.isAlpha then ⟨done, none, if last then cs else '&' :: cs⟩
        else readFrom last fuel none cs (.text "&" :: done)
      | c :: _ =>
        if c.isAlpha then ⟨done, none, '&' :: cs⟩
        else readFrom last fuel none cs (.text "&" :: done)
      | [] => ⟨done, none, ['&']⟩
  | fuel + 1, none, c :: cs, done =>
    let tail := cs.takeWhile fun c => c != '&' && c != '<'
    readFrom last fuel none (cs.drop tail.length) (.text (str (c :: tail)) :: done)

/-- All pieces of a markup text. -/
def pieces (html : String) : List Piece :=
  let cs := html.toList
  let first := readFrom false (cs.length + 1) none cs []
  let second := readFrom true (first.rest.length + 1) first.raw first.rest first.pieces
  let done :=
    if second.raw.isSome || second.rest.isEmpty then second.pieces
    else .text (str second.rest) :: second.pieces
  done.reverse

end TestMigration.Markup
