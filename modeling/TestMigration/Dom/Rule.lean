import TestMigration.Dom.Element

/-! Conditions that selectors put on elements, and which elements meet them. -/

namespace TestMigration

/-- Where a related element is: the first four are around and before, the others below and
after. -/
inductive Relation where
  | within
  | childOf
  | after
  | rightAfter
  | around
  | parentOf
  | before
  | rightBefore
  deriving DecidableEq, Repr, Inhabited

/-- How an attribute is compared: as a whole, at its ends, anywhere, as one of several words
or as a language with its regions. -/
inductive Comparison where
  | equals
  | begins
  | ends
  | holds
  | lists
  | language
  deriving DecidableEq, Repr, Inhabited

/-- Positions `step * n + offset` if it repeats, else the one position `step`; counted from
1. -/
structure Position where
  step : Int
  repeats : Bool
  offset : Int
  fromEnd : Bool
  deriving DecidableEq, Repr, Inhabited

/-- `unwritten` is an element without text, `builtIn` one whose name no page can make up,
`firstSubmit` the control that submits a form by default and `unchosen` a radio button of whose
group none is checked. -/
inductive Condition where
  | never
  | tag (name : String)
  | id (value : String)
  | cls (name : String)
  | attr (name : String)
  | compare (name : String) (how : Comparison) (value : String) (anyCase : Bool)
  | empty
  | root
  | scope
  | mentions (texts : List String) (own : Bool)
  | unwritten
  | builtIn
  | firstSubmit
  | unchosen
  | nthOfKind (p : Position)
  | nth (p : Position) (among : Condition)
  | all (conditions : List Condition)
  | any (conditions : List Condition)
  | none (conditions : List Condition)
  | related (relation : Relation) (c : Condition)
  deriving Repr, Inhabited

namespace Position

def first : Position := ⟨1, false, 0, false⟩

def last : Position := ⟨1, false, 0, true⟩

def has (p : Position) (index : Nat) : Bool :=
  if !p.repeats then p.step == index
  else if p.step == 0 then p.offset == index
  else
    let distance := (index : Int) - p.offset
    distance % p.step == 0 && 0 ≤ distance / p.step

end Position

namespace Comparison

private def lower (anyCase : Bool) (s : String) : List Char :=
  (if anyCase then s.toLower else s).toList

private def isListSpace (c : Char) : Bool :=
  c == ' ' || c == '\t' || c == '\r' || c == '\n' || c == '\x0c'

/-- The text without a line feed at its very end, which a comparison with the end may pass
over. -/
private def withoutFinalBreak (text : List Char) : List Char :=
  if text.getLast? == some '\n' then text.dropLast else text

private def occursIn (piece : List Char) : List Char → Bool
  | [] => piece.isEmpty
  | c :: rest => piece.isPrefixOf (c :: rest) || occursIn piece rest

/-- Does an attribute's text compare with a value? -/
def accepts (how : Comparison) (anyCase : Bool) (value text : String) : Bool :=
  let v := lower anyCase value
  let t := lower anyCase text
  let short := withoutFinalBreak t
  match how with
  | equals => t == v || short == v
  | begins => v.isPrefixOf t
  | ends => v.isSuffixOf t || v.isSuffixOf short
  | holds => occursIn v t
  | lists => !v.isEmpty && !v.any isListSpace && (Blank.wordsBy isListSpace t).contains v
  | language => t == v || short == v || (v ++ ['-']).isPrefixOf t

end Comparison

namespace Condition

private def isContent : TextKind → Bool
  | .quoted => false
  | _ => true

private def isEmptySpot (s : Spot) : Bool :=
  s.children.all fun n => match n with
    | .element _ _ _ => false
    | .text kind text => !isContent kind || text.all fun c =>
      c == ' ' || c == '\t' || c == '\r' || c == '\n' || c == '\x0c'

/-- The first of the outermost elements. -/
private def isScope (s : Spot) : Bool := s.around.length == 1 && s.earlier.isEmpty

private def isRoot (s : Spot) : Bool :=
  isScope s && (s.before ++ s.after).all fun n => match n with
    | .element _ _ _ => false
    | .text kind text => kind != .quoted && text.all isBlank

private def wholeText (s : Spot) : String :=
  String.join ((DomNode.textsOfAll s.children).filterMap fun (kind, text) =>
    if isContent kind then some text else Option.none)

private def mentionsAny (s : Spot) (texts : List String) (own : Bool) : Bool :=
  let found := if own then
      s.children.filterMap fun n => match n with
        | .text kind text => if isContent kind then some text else Option.none
        | .element _ _ _ => Option.none
    else [wholeText s]
  texts.any fun text => found.any fun f => (f.splitOn text).length > 1 || text == ""

/-- Attribute names are compared without regard to case. -/
private def attributeText? (s : Spot) (name : String) : Option String :=
  (s.attrs.find? fun a => a.1.toLower == name.toLower).map (·.2.joined)

private def isForm (s : Spot) : Bool := s.name == "form"

private def hasType (s : Spot) (type : String) : Bool :=
  (attributeText? s "type").any (·.toLower == type)

/-- Is the element the first in its form that submits it? -/
private def isFirstSubmit (s : Spot) : Bool :=
  match s.around.find? isForm with
  | Option.none => false
  | some form =>
    let before := form.descendants.takeWhile (!isForm ·)
    (before.find? fun e => (e.name == "input" || e.name == "button") && hasType e "submit").any
      (·.path == s.path)

/-- The form around an element, else the page. -/
private def group? (s : Spot) : Option Spot := (s.around.find? isForm).or s.around.getLast?

/-- Is no other radio button checked that has the same name in the same form? -/
private def isUnchosen (s : Spot) : Bool :=
  match group? s with
  | Option.none => false
  | some group =>
    let name := s.attribute? "name"
    !group.descendants.any fun e => e.path != s.path && e.name == "input" && hasType e "radio" &&
      e.attribute? "name" == name && (e.attribute? "checked").isSome &&
      (group? e).any (·.path == group.path)

/-- The elements that stand in a relation to one, in the order of looking. -/
def relatives (s : Spot) : Relation → List Spot
  | .within => s.around
  | .childOf => s.around.take 1
  | .after => s.earlier
  | .rightAfter => s.earlier.take 1
  | .around => s.descendants
  | .parentOf => s.elements
  | .before => s.later
  | .rightBefore => s.later.take 1

private def beside (s : Spot) (fromEnd : Bool) : List Spot := if fromEnd then s.later else s.earlier

mutual

/-- Does an element meet a condition? -/
def holds : Condition → Spot → Bool
  | never, _ => false
  | tag name, s => name == "*" || name.toLower == s.name.toLower
  | id value, s =>
    match s.attribute? "id" with
    | some v => v == .single value
    | Option.none => value == ""
  | cls name, s =>
    match s.attribute? "class" with
    | some (.several names) => names.contains name
    | some (.single text) => (Blank.words text).contains name
    | Option.none => false
  | attr name, s => (attributeText? s name).isSome
  | compare name how value anyCase, s =>
    (attributeText? s name).any (how.accepts anyCase value)
  | empty, s => isEmptySpot s
  | root, s => isRoot s
  | scope, s => isScope s
  | mentions texts own, s => mentionsAny s texts own
  | unwritten, s => wholeText s == "" || wholeText s == "\n"
  | builtIn, s => !s.name.contains '-' || s.name.contains ':'
  | firstSubmit, s => isFirstSubmit s
  | unchosen, s => isUnchosen s
  | nthOfKind p, s => p.has (((beside s p.fromEnd).filter (·.name == s.name)).length + 1)
  | nth p among, s =>
    holds among s && p.has (((beside s p.fromEnd).filter fun o => holds among o).length + 1)
  | all cs, s => allHold cs s
  | any cs, s => anyHolds cs s
  | none cs, s => !anyHolds cs s
  | related relation c, s => (relatives s relation).any fun o => holds c o

def allHold : List Condition → Spot → Bool
  | [], _ => true
  | c :: rest, s => holds c s && allHold rest s

def anyHolds : List Condition → Spot → Bool
  | [], _ => false
  | c :: rest, s => holds c s || anyHolds rest s

end

end Condition

end TestMigration
