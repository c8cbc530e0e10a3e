import TestMigration.Script.Rule

/-! Markup elements inside expressions. Tag names are not compared: an element ends at the
next closing tag, whatever its name. -/

namespace TestMigration.Script

namespace Input

variable (i : Input)

/-- End of the text that starts at `p`, and whether it is more than blanks around line
breaks; `atBreak` holds from a line break on until something else than a blank comes. -/
def markupText : Nat → Nat → Bool → Bool → Nat × Bool
  | 0, p, _, seen => (p, seen)
  | fuel + 1, p, atBreak, seen =>
    match i.char? p with
    | none => (p, seen)
    | some (c, w) =>
      if "<>\x7b\x7d&".toList.contains c then (p, seen)
      else if c == '\n' then markupText fuel (p + w) true seen
      else
        let atBreak := atBreak && isLineBlank c
        markupText fuel (p + w) atBreak (seen || !atBreak)

/-- End of the character reference whose ampersand stands at `p`. -/
def characterReferenceStop? (p : Nat) : Option Nat :=
  let ending (start most stop : Nat) : Option Nat :=
    if start < stop && stop ≤ start + most && i.is stop ';' then some (stop + 1) else none
  if !i.is p '&' then none
  else if i.is (p + 1) '#' then
    if i.is (p + 2) 'x' || i.is (p + 2) 'X' then ending (p + 3) 6 (i.skip isHexDigit (p + 3))
    else ending (p + 2) 5 (i.skip Char.isDigit (p + 2))
  else ending (p + 1) 30 (i.skip Char.isAlpha (p + 1))

/-- The parts of a quoted attribute value. -/
def attributeParts? (quote : Char) : Nat → Nat → Nat → List Node → Option (List Node × Nat)
  | 0, _, _, _ => none
  | fuel + 1, begun, p, parts =>
    let flush := if begun < p then .mk none .stringFragment begun p [] :: parts else parts
    match i.char? p with
    | none => none
    | some (c, w) =>
      if c == quote then some (flush.reverse, p + 1)
      else if c == '&' then
        match i.characterReferenceStop? p with
        | some stop => attributeParts? quote fuel stop stop
          (.mk none .htmlCharacterReference p stop [] :: flush)
        | none =>
          match i.char? (p + 1) with
          | some (d, v) =>
            if d == '#' || d.isAlpha then none
            else attributeParts? quote fuel begun (p + 1 + v) parts
          | none => none
      else attributeParts? quote fuel begun (p + w) parts

/-- End of a tag or attribute name: a word, or words joined by hyphens. -/
def markupNameStop? (p : Nat) : Option Nat :=
  let simple (c : Char) := (c.isAlphanum && c.toNat < 128) || c == '_' || c == '$'
  let plain := i.skip simple p
  let hyphened := if p < plain && i.is plain '-' && !(match i.char? p with
      | some (c, _) => c.isDigit
      | none => true)
    then some (i.skip (fun c => simple c || c == '-') plain) else none
  hyphened <|> i.wordStop? p

end Input

namespace Rules

open Reader

variable (g : Rules)

def attributeText : Reader Node := do
  let start ← skipTrivia
  let i ← input
  let quote := if i.is start '\'' then '\'' else '"'
  Reader.guard (i.is start quote)
  match i.attributeParts? quote (i.bytes.size + 1 - start) (start + 1) (start + 1) [] with
  | some (parts, stop) => take stop; return .mk none .string start stop parts
  | none => fail

def markupExpression : Reader Node :=
  node .jsxExpression do
    punct "\x7b"
    let inner ← maybe (spread g <|> g .sequence)
    punct "\x7d"
    return inner

def markupName (kind : Kind) : Reader Node := leaf kind Input.markupNameStop?

def namespacedName : Reader Node :=
  node .jsxNamespaceName do
    let outer ← markupName .identifier
    punct ":"
    let inner ← markupName .identifier
    return [outer, inner]

/-- A tag name: a word, `a.b` or `a:b`. -/
def elementName : Reader Node :=
  namespacedName <|> do
  let first ← markupName .identifier
  let rec chain : Nat → Node → Reader Node
    | 0, n => pure n
    | fuel + 1, n =>
      (do
        punct "."
        let property ← under .property (word .propertyIdentifier)
        let member ← nodeFrom n .memberExpression [n.withRole .object, property]
        chain fuel member) <|> pure n
  chain (← input).bytes.size first

def markupAttribute : Reader Node :=
  markupExpression g <|>
  node .jsxAttribute do
    let name ← namespacedName <|> markupName .propertyIdentifier
    let value ← (do
      punct "="
      one (attributeText <|> markupExpression g <|> g .element)) <|> pure []
    return name :: value

/-- What lies between `<` and the end of an opening tag. -/
def tagInside : Reader (List Node) := do
  let name ← under .name elementName
  let types ← optionalTypeArguments g
  let attributes ← many (under .attribute (markupAttribute g))
  return name :: types ++ attributes

def closingTag : Reader Node :=
  node .jsxClosingElement do
    punct "</"
    let name ← maybe (under .name elementName)
    punct ">"
    return name

/-- One child of an element; text keeps its blanks unless it is nothing but a line break
and the blanks around it. -/
def child : Reader Node := do
  rewind
  let c ← cursor
  let i ← input
  match i.markupText (i.bytes.size + 1 - c.last) c.last false false with
  | (stop, true) => take stop; return .mk none .jsxText c.last stop []
  | (_, false) =>
    firstOf [leaf .htmlCharacterReference Input.characterReferenceStop?,
      markupExpression g, g .element]

def element : Reader Node := do
  let start ← skipTrivia
  notAhead (punct "</")
  punct "<"
  let inside ← (tagInside g) <|> pure []
  (do
    punct "/>"
    return .mk none .jsxSelfClosingElement start (← cursor).last inside) <|> do
  punct ">"
  let opening := Node.mk (some .openTag) .jsxOpeningElement start (← cursor).last inside
  let children ← many (child g)
  let closing ← under .closeTag closingTag
  return .mk none .jsxElement start (← cursor).last (opening :: children ++ [closing])

end Rules

end TestMigration.Script
