import TestMigration.Dom.Markup

/-! The elements of a page. Markup is made into a tree as it comes: an end tag closes the
nearest open element of its name and all that was opened in it, and what is still open at the
end of the text is closed there. -/

namespace TestMigration

/-- Attributes that hold several values, such as `class`, are kept as lists. -/
inductive AttributeValue where
  | single (s : String)
  | several (items : List String)
  deriving DecidableEq, Repr, Inhabited

/-- The text that selectors compare with. -/
def AttributeValue.joined : AttributeValue → String
  | single s => s
  | several items => " ".intercalate items

/-- `special` text stands in an element whose text does not count as the page's. -/
inductive TextKind where
  | plain
  | quoted
  | special (element : String)
  deriving DecidableEq, Repr, Inhabited

inductive DomNode where
  | element (name : String) (attrs : List (String × AttributeValue)) (children : List DomNode)
  | text (kind : TextKind) (s : String)
  deriving Repr, Inhabited

namespace DomNode

/-- Elements that have no content and need no end tag. -/
def voidNames : List String :=
  ["area", "base", "br", "col", "embed", "hr", "img", "input", "keygen", "link", "menuitem",
    "meta", "param", "source", "track", "wbr", "basefont", "bgsound", "command", "frame",
    "image", "isindex", "nextid", "spacer"]

def specialNames : List String := ["rt", "rp", "style", "script", "template"]

/-- Attributes of an element that hold several values. -/
def listAttributes (element : String) : List String :=
  ["class", "accesskey", "dropzone"] ++ match element with
    | "a" | "link" => ["rel", "rev"]
    | "td" | "th" => ["headers"]
    | "form" => ["accept-charset"]
    | "object" => ["archive"]
    | "area" => ["rel"]
    | "icon" => ["sizes"]
    | "iframe" => ["sandbox"]
    | "output" => ["for"]
    | _ => []

/-- Attributes by name: a repeated one keeps its first place and takes its last value. -/
def attributesOf (element : String) (attrs : List (String × String)) :
    List (String × AttributeValue) :=
  let put (kept : List (String × AttributeValue)) (attr : String × String) :=
    let (name, value) := attr
    let value := if (listAttributes element).contains name then .several (Blank.words value)
      else AttributeValue.single value
    if kept.any (·.1 == name) then kept.map fun e => if e.1 == name then (name, value) else e
    else kept ++ [(name, value)]
  attrs.foldl put []

/-- An element whose end has not come yet; its children so far, the latest first. -/
structure OpenElement where
  name : String
  attrs : List (String × AttributeValue)
  children : List DomNode

/-- `open'` holds the open elements, the innermost first, and `roots` what is finished
outside of them. `spent` lists void elements whose end tag, if one comes, means nothing. -/
structure Building where
  open' : List OpenElement := []
  roots : List DomNode := []
  pending : List String := []
  spent : List String := []

namespace Building

def add (b : Building) (n : DomNode) : Building :=
  match b.open' with
  | [] => { b with roots := n :: b.roots }
  | e :: outer => { b with open' := { e with children := n :: e.children } :: outer }

/-- Finish the run of text. -/
def flush (b : Building) (kind : Option TextKind := none) : Building :=
  if b.pending.isEmpty then b
  else
    let inherited := match b.open'.find? fun e => specialNames.contains e.name with
      | some e => TextKind.special e.name
      | none => .plain
    { b with pending := [] }.add
      (.text (kind.getD inherited) (String.join b.pending.reverse))

/-- Close the innermost element. -/
def pop (b : Building) : Building :=
  match b.open' with
  | [] => b
  | e :: outer => { b with open' := outer }.add (.element e.name e.attrs e.children.reverse)

def popTimes : Nat → Building → Building
  | 0, b => b
  | n + 1, b => popTimes n b.pop

/-- Close the nearest open element of a name, if there is one. -/
def close (b : Building) (name : String) : Building :=
  match b.open'.findIdx? (·.name == name) with
  | some depth => popTimes (depth + 1) b
  | none => b

def take (b : Building) : Markup.Piece → Building
  | .text s => { b with pending := s :: b.pending }
  | .aside => b.flush
  | .quoted s => { b.flush with pending := [s] }.flush (some .quoted)
  | .closing name =>
    if b.spent.contains name then { b with spent := b.spent.erase name } else b.flush.close name
  | .opening name attrs closed =>
    let b := b.flush
    let b := { b with open' := ⟨name, attributesOf name attrs, []⟩ :: b.open' }
    if closed then b.pop
    else if voidNames.contains name then { b.pop with spent := name :: b.spent }
    else b

end Building

/-- The page that a markup text describes: its outermost elements and texts. -/
def ofMarkup (html : String) : List DomNode :=
  let b := ((Markup.pieces html).foldl Building.take {}).flush
  (Building.popTimes b.open'.length b).roots.reverse

mutual

/-- Words of the texts that count in an element read as `wanted` tells. -/
def wordsOf (wanted : TextKind → Bool) : DomNode → List String
  | element _ _ children => wordsOfAll wanted children
  | text kind s => if wanted kind then Blank.words s else []

def wordsOfAll (wanted : TextKind → Bool) : List DomNode → List String
  | [] => []
  | n :: rest => wordsOf wanted n ++ wordsOfAll wanted rest

end

mutual

/-- Every text below a node, in order. -/
def textsOf : DomNode → List (TextKind × String)
  | element _ _ children => textsOfAll children
  | text kind s => [(kind, s)]

def textsOfAll : List DomNode → List (TextKind × String)
  | [] => []
  | n :: rest => textsOf n ++ textsOfAll rest

end

end DomNode

/-- An element together with what stands before it (the nearest first), after it and around
it. -/
inductive Spot where
  | mk (name : String) (attrs : List (String × AttributeValue)) (children : List DomNode)
      (before after : List DomNode) (around : List Spot)
  deriving Inhabited

namespace Spot

def name : Spot → String
  | mk name _ _ _ _ _ => name

def attrs : Spot → List (String × AttributeValue)
  | mk _ attrs _ _ _ _ => attrs

def children : Spot → List DomNode
  | mk _ _ children _ _ _ => children

def before : Spot → List DomNode
  | mk _ _ _ before _ _ => before

def after : Spot → List DomNode
  | mk _ _ _ _ after _ => after

/-- The elements around it, the innermost first; the whole page is the last of them. -/
def around : Spot → List Spot
  | mk _ _ _ _ _ around => around

/-- Where it stands: how many nodes come before it, and before each element around it. -/
def path (s : Spot) : List Nat := s.before.length :: s.around.map (·.before.length)

/-- The page as a whole. -/
def page (nodes : List DomNode) : Spot := mk "[document]" [] nodes [] [] []

def attribute? (s : Spot) (name : String) : Option AttributeValue :=
  (s.attrs.find? (·.1 == name)).map (·.2)

/-- The elements among nodes that stand one after another. -/
def siblings (around : List Spot) : List DomNode → List DomNode → List Spot
  | _, [] => []
  | before, n :: rest =>
    match n with
    | .element name attrs children =>
      mk name attrs children before rest around :: siblings around (n :: before) rest
    | .text _ _ => siblings around (n :: before) rest

def elements (s : Spot) : List Spot := siblings (s :: s.around) [] s.children

private def siblingsBefore (around : List Spot) (after : List DomNode) : List DomNode → List Spot
  | [] => []
  | n :: before =>
    match n with
    | .element name attrs children =>
      mk name attrs children before after around :: siblingsBefore around (n :: after) before
    | .text _ _ => siblingsBefore around (n :: after) before

private def self (s : Spot) : DomNode := .element s.name s.attrs s.children

/-- Elements beside it that come earlier, the nearest first. -/
def earlier (s : Spot) : List Spot := siblingsBefore s.around (s.self :: s.after) s.before

/-- Elements beside it that come later, the nearest first. -/
def later (s : Spot) : List Spot := siblings s.around (s.self :: s.before) s.after

mutual

/-- The elements of a node in document order, each before those in it. -/
def walk (around : List Spot) (before after : List DomNode) : DomNode → List Spot
  | .text _ _ => []
  | .element name attrs children =>
    let here := mk name attrs children before after around
    here :: walkAll (here :: around) [] children

def walkAll (around : List Spot) (before : List DomNode) : List DomNode → List Spot
  | [] => []
  | n :: rest => walk around before rest n ++ walkAll around (n :: before) rest

end

/-- All elements below it in document order. -/
def descendants (s : Spot) : List Spot := walkAll (s :: s.around) [] s.children

/-- Its text with blanks folded: the texts of the page, or, in an element whose text is none
of the page's, the texts of that element. -/
def text (s : Spot) : String :=
  let wanted : TextKind → Bool :=
    if DomNode.specialNames.contains s.name then (· == .special s.name)
    else fun kind => kind == .plain || kind == .quoted
  " ".intercalate (DomNode.wordsOfAll wanted s.children)

end Spot

end TestMigration
