import TestMigration.Settings.Cursor
import TestMigration.Settings.Scalar

/-! Settings files: records and lists by indentation or between brackets. Scalars are plain, quoted
or blocks. A value may be given a name, stand for a named one, or state its kind; a record may
take in the entries of another. -/

namespace TestMigration.Layout

/-- The name under which a key is kept; lists and records are no keys. -/
def keyName? : Value → Option String
  | .text s => some s
  | .null => some "null"
  | .bool b => some (if b then "true" else "false")
  | .list _ | .record _ => none
  | v => some v.shown

/-! ## Names and kinds -/

/-- What may stand before a value: its name, and its kind. -/
structure Label where
  name : Option String := none
  kind : Option String := none
  deriving Repr, Inhabited

private def isNameChar (c : Char) : Bool := c.isAlphanum || c == '-' || c == '_'

/-- A name after its sign. -/
private def name? (c : Cursor) : Option (String × Cursor) :=
  let name := c.rest.takeWhile isNameChar
  let after := c.along name.length
  let ends := isGapBefore after.rest || after.head?.any ("?:,]\x7d%@\x60".toList.contains ·)
  if name.isEmpty || !ends then none else some (String.ofList name, after)

/-- One part of a label. Only the kinds that every settings file knows can be stated. -/
private def labelPart? (label : Label) (c : Cursor) : Option (Label × Cursor) :=
  match c.rest with
  | '&' :: _ => do
    let (name, after) ← name? c.next
    if label.name.isSome || c.named.any (·.1 == name) then none
    return ({ label with name }, after)
  | '!' :: '!' :: rest =>
    let kind := rest.takeWhile isNameChar
    let after := c.along (kind.length + 2)
    if label.kind.isSome || !(isGapBefore after.rest || after.head? == some ',') then none
    else some ({ label with kind := some (String.ofList kind) }, after)
  | _ => none

private def isLabel (c : Cursor) : Bool := c.head? == some '&' || c.head? == some '!'

/-- The label that begins here. -/
def label? (c : Cursor) : Option (Label × Cursor) := do
  let (label, after) ← labelPart? {} c
  let next := after.along (after.rest.takeWhile (· == ' ')).length
  if isLabel next then labelPart? label next else return (label, after)

/-- Keep a value under its name, if it has one. -/
def Label.keep (label : Label) (v : Value) (c : Cursor) : Cursor :=
  match label.name with
  | some name => { c with named := (name, v) :: c.named }
  | none => c

/-- A list or a record of a stated kind. -/
private def Label.holds (label : Label) : Value → Bool
  | .list _ => label.kind.all (· == "seq")
  | .record _ => label.kind.all (· == "map")
  | _ => label.kind.isNone

/-- A scalar that is not a block: its text, and whether it is plain. -/
private def scalarText? (inFlow : Bool) (indent : Int) (c : Cursor) :
    Option (String × Bool × Cursor) :=
  if c.head? == some '"' || c.head? == some '\'' then (quoted c).map fun (s, c) => (s, false, c)
  else if beginsPlain inFlow c.rest then
    let (s, c) := plain inFlow indent c
    some (s, true, c)
  else none

/-- The key under which a record takes in other records. -/
def mergeKey : String := "<<"

/-- A scalar that is not a block, or a named value in its place. `isKey` where it may be a key. -/
def scalar? (isKey inFlow : Bool) (indent : Int) (c : Cursor) : Option (Value × Cursor) :=
  if c.head? == some '*' then do
    let (name, after) ← name? c.next
    let v ← (c.named.find? (·.1 == name)).map (·.2)
    return (v, after)
  else do
    let (s, isPlain, after) ← scalarText? inFlow indent c
    if !isPlain then return (.text s, after)
    if s == "=" || (s == mergeKey && !isKey) then none
    return (Scalar.value s, after)

/-- A scalar of a stated kind. A kind alone stands for the empty text. -/
private def scalarOfKind? (kind : String) (inFlow : Bool) (indent : Int) (c : Cursor) :
    Option (Value × Cursor) := do
  let written? : Option (String × Cursor) :=
    if !inFlow && (c.head? == some '|' || c.head? == some '>') then block indent c
    else (scalarText? inFlow indent c).map fun (s, _, c) => (s, c)
  let (s, c) := written?.getD ("", c)
  return (← Scalar.ofKind? kind s, c)

private def isScalarKind (kind : String) : Bool := !(["seq", "map"].contains kind)

private def entriesOf? : Value → Option Entries
  | .record es => some es
  | _ => none

/-- The records that a merge takes in, the one that counts most last. -/
private def merged? : Value → Option Entries
  | .record es => some es
  | .list vs => (vs.reverse.mapM entriesOf?).map List.flatten
  | _ => none

/-- Entries as they were found, and those that are taken in from elsewhere. -/
structure Found where
  own : Entries := []
  merged : Entries := []

/-- Own entries count more than those taken in, later ones more than earlier ones. -/
def Found.record (f : Found) : Value :=
  .record ((f.merged ++ f.own).foldl (fun (es : Entries) (key, v) => es.put key v) [])

/-- Add an entry; `isPlain` tells whether its key is written without quotes. -/
def Found.add? (f : Found) (isPlain : Bool) (k v : Value) : Option Found :=
  if isPlain && k matches .text "<<" then
    (merged? v).map fun es => { f with merged := f.merged ++ es }
  else (keyName? k).map fun key => { f with own := f.own ++ [(key, v)] }

private def isPlainKey (c : Cursor) : Bool := c.head? == some '<'

/-! ## Between brackets -/

private def closes (close : Char) (c : Cursor) : Bool := c.head? == some close

mutual

/-- A value between brackets. -/
private def flow : Nat → Bool → Cursor → Option (Value × Cursor)
  | 0, _, _ => none
  | fuel + 1, isKey, c =>
    if c.atMarker then none
    else if isLabel c then do
      let (label, after) ← label? c
      let next := after.item
      let isEmpty := next.head?.any fun x => x == ',' || x == ']' || x == '\x7d' || x == ':'
      let (v, after) ← match label.kind with
        | some kind =>
          if isScalarKind kind then scalarOfKind? kind true 0 next else flow fuel isKey next
        | none => if isEmpty then some (Value.null, next) else flow fuel isKey next
      if label.kind.any isScalarKind || label.holds v || label.kind.isNone then
        some (v, label.keep v after)
      else none
    else if c.head? == some '[' then flowItems fuel [] c.next.item
    else if c.head? == some '{' then flowEntries fuel {} c.next.item
    else scalar? isKey true 0 c

/-- The value after a colon, if there is one. -/
private def flowAfterColon : Nat → Char → Cursor → Option (Value × Cursor)
  | 0, _, _ => none
  | fuel + 1, close, c =>
    if c.head? == some ',' || closes close c then some (.null, c) else flow fuel false c

/-- The rest of a list. A key with a value in it is a record of its own. -/
private def flowItems : Nat → List Value → Cursor → Option (Value × Cursor)
  | 0, _, _ => none
  | fuel + 1, items, c =>
    if closes ']' c then some (.list items, c.next)
    else do
      let (v, after) ← flow fuel false c
      let next := after.item
      let (v, next) ←
        if next.head? == some ':' && next.line == c.line then do
          let (w, after) ← flowAfterColon fuel ']' next.next.item
          pure ((← ({} : Found).add? (isPlainKey c) v w).record, after.item)
        else pure (v, next)
      if next.head? == some ',' then flowItems fuel (items ++ [v]) next.next.item
      else if closes ']' next then some (.list (items ++ [v]), next.next)
      else none

/-- The rest of a record. A key alone has no value. -/
private def flowEntries : Nat → Found → Cursor → Option (Value × Cursor)
  | 0, _, _ => none
  | fuel + 1, found, c =>
    if closes '}' c then some (found.record, c.next)
    else do
      let (k, after) ← flow fuel true c
      let next := after.item
      let (v, next) ←
        if next.head? == some ':' && next.line == c.line then do
          let (w, after) ← flowAfterColon fuel '}' next.next.item
          pure (w, after.item)
        else pure (Value.null, next)
      let found ← found.add? (isPlainKey c) k v
      if next.head? == some ',' then flowEntries fuel found next.next.item
      else if closes '}' next then some (found.record, next.next)
      else none

end

/-! ## By indentation -/

/-- Is a key on line `line` followed by its colon here? -/
private def atColon (line : Nat) (c : Cursor) : Bool :=
  let c := c.along (c.rest.takeWhile (· == ' ')).length
  c.isSign ':' && c.line == line

private def pastColon (c : Cursor) : Cursor := (c.along (c.rest.takeWhile (· == ' ')).length).next

/-- A key of a record, with its label. -/
private def key? (indent : Int) (c : Cursor) : Option (Value × Cursor) :=
  if isLabel c then do
    let (label, after) ← label? c
    let next := after.along (after.rest.takeWhile (· == ' ')).length
    let (v, after) ← match label.kind with
      | some kind => scalarOfKind? kind false indent next
      | none => scalar? true false indent next
    return (v, label.keep v after)
  else scalar? true false indent c

private def isKeyHere (indent : Int) (c : Cursor) : Bool :=
  (key? indent c).any fun (_, after) => atColon c.line after

mutual

/-- The value of a part with indentation `indent`. Lists and records begin only where a part may
begin: `fresh`. A list may stand in the same column as the key of a record: `inRecord`. -/
private def node : Nat → Int → Bool → Bool → Cursor → Option (Value × Cursor)
  | 0, _, _, _, _ => none
  | fuel + 1, indent, fresh, inRecord, c =>
    if c.isSign '-' then if fresh then items fuel c.column [] c else none
    else if c.isSign '?' then if fresh then entries fuel c.column {} c else none
    else if isLabel c then
      if isKeyHere indent c then if fresh then entries fuel c.column {} c else none
      else do
        let (label, after) ← label? c
        let next := after.item
        match label.kind with
        | some kind =>
          if isScalarKind kind then
            let (v, after) ← scalarOfKind? kind false indent
              (if next.line == c.line || (next.column : Int) > indent then next else after)
            return (v, label.keep v after)
          else
            let (v, after) ← below fuel indent inRecord c.line next
            if label.holds v then some (v, label.keep v after) else none
        | none =>
          let (v, after) ← below fuel indent inRecord c.line next
          return (v, label.keep v after)
    else if c.head? == some '[' || c.head? == some '{' then do
      let (v, after) ← flow fuel false c
      if atColon c.line after then none else some (v, after)
    else if c.head? == some '|' || c.head? == some '>' then
      (block indent c).map fun (s, c) => (.text s, c)
    else if isKeyHere indent c then if fresh then entries fuel c.column {} c else none
    else do
      let (v, after) ← scalar? false false indent c
      let isKey := (after.column : Int) > indent && (after.isSign ':' || atColon after.line after)
      if isKey then none else some (v, after)

/-- The value that stands at `next`, after something on line `line` of a part with indentation
`indent`; none may stand there. -/
private def below : Nat → Int → Bool → Nat → Cursor → Option (Value × Cursor)
  | 0, _, _, _, _ => none
  | fuel + 1, indent, inRecord, line, next =>
    if next.atEnd then some (.null, next)
    else if next.line == line then node fuel indent (!inRecord) inRecord next
    else if (next.column : Int) > indent then node fuel indent true inRecord next
    else if inRecord && (next.column : Int) == indent && next.isSign '-' then
      items fuel next.column [] next
    else some (.null, next)

/-- A list whose dashes stand in a column. -/
private def items : Nat → Nat → List Value → Cursor → Option (Value × Cursor)
  | 0, _, _, _ => none
  | fuel + 1, column, done, c =>
    if !c.atEnd && c.column == column && c.isSign '-' then do
      let (v, after) ← below fuel column false c.line c.next.item
      items fuel column (done ++ [v]) after.item
    else some (.list done, c)

/-- A record whose keys stand in a column. A key of any kind may follow a question mark. -/
private def entries : Nat → Nat → Found → Cursor → Option (Value × Cursor)
  | 0, _, _, _ => none
  | fuel + 1, column, found, c =>
    if !c.atEnd && c.column == column then
      if c.isSign '?' then do
        let (k, after) ← below fuel column false c.line c.next.item
        let next := after.item
        let (v, after) ←
          if next.column == column && next.isSign ':' then
            below fuel column false next.line next.next.item
          else pure (Value.null, next)
        entries fuel column (← found.add? false k v) after.item
      else do
        let (k, after) ← key? column c
        if !atColon c.line after then none
        let (v, after) ← below fuel column true c.line (pastColon after).item
        entries fuel column (← found.add? (isPlainKey c) k v) after.item
    else some (found.record, c)

end

/-! ## Whole files -/

/-- Characters that a settings file may hold. -/
def isAllowed (c : Char) : Bool :=
  c == '\t' || c == '\n' || c == '\r' || (' ' ≤ c && c ≤ '~') || c == '\u0085' ||
    ('\u00A0' ≤ c && c ≤ '\uFFFD') || 0x10000 ≤ c.toNat

private def skipDirectives : Nat → Cursor → Cursor
  | 0, c => c
  | fuel + 1, c =>
    if c.head? == some '%' && c.column == 0 then
      skipDirectives fuel (c.along (c.rest.takeWhile fun x => !isBreak x).length).item
    else c

/-- Is nothing left but the end of the document? -/
private def isFinished : Nat → Cursor → Bool
  | 0, _ => false
  | fuel + 1, c => c.rest.isEmpty || (c.isMarker '.' && isFinished fuel (c.along 3).item)

/-- The one value that a file holds, or none if the file is not well formed. A file without a
value holds the empty value. -/
def ofText? (text : String) : Option Value :=
  if !text.toList.all isAllowed then none
  else do
    let cs := text.toList.map fun c => if c == '\u0085' then '\n' else c
    let cs := if cs.head? == some '\uFEFF' then cs.drop 1 else cs
    let fuel := 3 * cs.length + 3
    let start := skipDirectives fuel (Cursor.item { rest := cs })
    let opened := start.isMarker '-'
    let body := if opened then (start.along 3).item else start
    if !opened && start.line > 0 && cs.head? == some '%' then none
    let (v, after) ←
      if body.atEnd then pure (Value.null, body)
      else node fuel (-1) (!opened || body.line != start.line) false body
    if isFinished fuel after.item then some v else none

end TestMigration.Layout
