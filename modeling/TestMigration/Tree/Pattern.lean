import TestMigration.Tree.Handle
import TestMigration.Text.Expression

/-! Partial descriptions of nodes, and the sets of nodes that match them. A set is not a
list: it is looked up again in the current tree whenever it is used. -/

namespace TestMigration

open Script (Kind Field)

/-- A whole text, or a regular expression for one. -/
inductive TextTest where
  | exactly (s : String)
  | fully (e : Expression)

def TextTest.holds : TextTest → String → Bool
  | exactly s, text => text == s
  | fully e, text => e.matchesFully text.toList

/-- What is not given matches everything. `leading` describes the first call arguments and
`count` is their number; `also` is asked last. -/
inductive Pattern where
  | mk (kinds : Option (List Kind)) (text : Option TextTest) (fields : List (Field × Pattern))
      (leading : Option (List Pattern)) (count : Option Int)
      (also : Option (Handle → Looking Bool))

/-- Argument nodes of a call; comments between them are none. -/
def callArguments (h : Handle) : Looking (List Handle) := do
  match ← h.field? .arguments with
  | none => return []
  | some list =>
    if (← list.kind) != .arguments then return []
    return (← list.namedChildren).filter (·.place.node.kind != .comment)

namespace Pattern

/-- The kinds that a written pattern can name. -/
def writtenKinds : List Kind :=
  [.program, .exportStatement, .lexicalDeclaration, .variableDeclaration, .variableDeclarator,
    .assignmentExpression, .callExpression, .memberExpression, .arguments, .identifier,
    .propertyIdentifier, .string, .trueLiteral, .falseLiteral, .object, .pair, .objectPattern,
    .expressionStatement, .returnStatement, .functionDeclaration, .arrowFunction,
    .awaitExpression, .thisExpression]

/-- A kind by its written name, which is in capitals. An import is written as a declaration. -/
def kindOf? (name : String) : Option Kind :=
  if name == "IMPORT_DECLARATION" then some .importStatement
  else writtenKinds.find? (·.name.toUpper == name)

def kindHolds (kinds : Option (List Kind)) (h : Handle) : Looking Bool :=
  match kinds with
  | none => return true
  | some kinds => return kinds.contains (← h.kind)

def textHolds (text : Option TextTest) (h : Handle) : Looking Bool :=
  match text with
  | none => return true
  | some test => return test.holds (← h.text)

def countHolds (count : Option Int) (arguments : List Handle) : Bool :=
  match count with
  | none => true
  | some n => (arguments.length : Int) == n

def alsoHolds (also : Option (Handle → Looking Bool)) (h : Handle) : Looking Bool :=
  match also with
  | none => return true
  | some test => test h

mutual

def holdsOf : Pattern → Handle → Looking Bool
  | mk kinds text fields leading count also, h => do
    if !(← kindHolds kinds h) then return false
    if !(← textHolds text h) then return false
    if !(← fieldsHold fields h) then return false
    if leading.isSome || count.isSome then
      let arguments ← callArguments h
      if !countHolds count arguments then return false
      if !(← leadingHold leading arguments) then return false
    alsoHolds also h

def leadingHold : Option (List Pattern) → List Handle → Looking Bool
  | none, _ => return true
  | some patterns, hs => argumentsHold patterns hs

def fieldsHold : List (Field × Pattern) → Handle → Looking Bool
  | [], _ => return true
  | (f, p) :: rest, h => do
    match ← h.field? f with
    | none => return false
    | some child => if ← holdsOf p child then fieldsHold rest h else return false

/-- Each pattern against the argument at its place; there may be further arguments. -/
def argumentsHold : List Pattern → List Handle → Looking Bool
  | [], _ => return true
  | _ :: _, [] => return false
  | p :: rest, h :: hs => do
    if ← holdsOf p h then argumentsHold rest hs else return false

end

/-- Does the pattern match? Nothing matches where there is no node. -/
def holds (p : Pattern) : Option Handle → Looking Bool
  | none => return false
  | some h => p.holdsOf h

def any : Pattern := .mk none none [] none none none

def ofKind (kind : Kind) : Pattern := .mk (some [kind]) none [] none none none

def ofKinds (kinds : List Kind) : Pattern := .mk (some kinds) none [] none none none

def withArguments (leading : Option (List Pattern)) (count : Option Int)
    (also : Option (Handle → Looking Bool)) : Pattern → Pattern
  | mk kinds text fields _ _ _ => mk kinds text fields leading count also

def withCount (n : Int) : Pattern → Pattern
  | mk kinds text fields leading _ also => mk kinds text fields leading (some n) also

def identifier (name : Option TextTest) : Pattern := .mk (some [.identifier]) name [] none none none

/-- Calls of a plain name. -/
def callTo (name : TextTest) : Pattern :=
  .mk (some [.callExpression]) none [(.callee, identifier (some name))] none none none

/-- Calls of a method, on a receiver that matches. -/
def methodCall (method : TextTest) (receiver : Option Pattern := none) : Pattern :=
  let property := (Field.property,
    Pattern.mk (some [.propertyIdentifier]) (some method) [] none none none)
  let fields := match receiver with
    | some r => [property, (.object, r)]
    | none => [property]
  .mk (some [.callExpression]) none
    [(.callee, .mk (some [.memberExpression]) none fields none none none)] none none none

end Pattern

/-- Replace a node by the text that `build` gives for it, if any; yields how many were replaced. -/
def Handle.replaceBy (build : Handle → Looking (Option Text)) (h : Handle) : Editing Nat := do
  match ← (build h : Looking _) with
  | some text => h.replaceWith text; return 1
  | none => return 0

/-- Nearest ancestor that matches. -/
def Handle.closest? (h : Handle) (p : Pattern) : Looking (Option Handle) := do
  (← h.ancestors).findM? fun a => p.holdsOf a

/-- `within` looks below given nodes, themselves included, `inside` below the members of a
set; `around` takes the nearest matching ancestors of its members. -/
inductive MatchSet where
  | within (roots : List Handle) (pattern : Pattern)
  | inside (outer : MatchSet) (pattern : Pattern)
  | around (inner : MatchSet) (pattern : Pattern)
  | filtered (set : MatchSet) (test : Handle → Looking Bool)

namespace MatchSet

/-- Of equal handles only the first is kept. -/
def distinct (hs : List Handle) : List Handle :=
  (hs.foldl (fun kept h => if kept.any h.same then kept else h :: kept) []).reverse

/-- All members, each once, in the order of the walk. -/
def members : MatchSet → Looking (List Handle)
  | within roots p => do
    let candidates ← roots.mapM (·.descendants)
    return distinct (← candidates.flatten.filterM p.holdsOf)
  | inside outer p => do
    let candidates ← (← outer.members).mapM (·.descendants)
    return distinct (← candidates.flatten.filterM p.holdsOf)
  | around inner p => do
    let found ← (← inner.members).mapM (·.closest? p)
    return distinct (found.filterMap id)
  | filtered set test => do
    return distinct (← (← set.members).filterM test)

/-- The first member. Candidates after it are not looked at. -/
def first? : MatchSet → Looking (Option Handle)
  | within roots p => do
    let candidates ← roots.mapM (·.descendants)
    candidates.flatten.findM? p.holdsOf
  | inside outer p => do
    let candidates ← (← outer.members).mapM (·.descendants)
    candidates.flatten.findM? p.holdsOf
  | set => return (← set.members).head?

/-- How many members there are. -/
def size (set : MatchSet) : Looking Nat := return (← set.members).length

/-- Whether there is a member; candidates after the first one are not looked at. -/
def nonempty (set : MatchSet) : Looking Bool := return (← set.first?).isSome

/-- Everything in the tree that matches. -/
def ofTree (p : Pattern) : Looking MatchSet := return .within [← Handle.root] p

/-- Replace every member for which `build` gives a text; yields how many that were. The
members are looked up before the first is replaced. -/
def replaceWith (set : MatchSet) (build : Handle → Looking (Option Text)) : Editing Nat := do
  let hs ← (set.members : Looking _)
  if hs.isEmpty then return 0
  Document.editing do
    let counts ← hs.mapM (·.replaceBy build)
    return counts.foldr (· + ·) 0

/-- Delete every member; yields how many there were. -/
def remove (set : MatchSet) : Editing Nat := do
  let hs ← (set.members : Looking _)
  if hs.isEmpty then return 0
  Document.editing do
    hs.forM (·.remove)
    return hs.length

end MatchSet

/-- Everything in the current tree that matches. -/
def findAll (p : Pattern) : Looking (List Handle) := do
  (← MatchSet.ofTree p).members

end TestMigration
