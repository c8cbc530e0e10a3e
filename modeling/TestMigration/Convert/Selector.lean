import TestMigration.Convert.Pass

/-! Selectors of `find` calls. One that names a test id or a role becomes a query of the
page; the others are reported. -/

namespace TestMigration

/-- What a `find` argument selects by. -/
inductive Selector where
  | testId (value : Text)
  | role (value : Text)
  | other
  deriving DecidableEq, Repr, Inhabited

namespace Selector

def isQuote (g : Glyph) : Bool := g == .char '"' || g == .char '\''

/-- A quoted value at the head of a text, not empty and without quotes, and what follows. -/
def quotedValue? : Text → Option (Text × Text)
  | [] => none
  | opening :: rest =>
    let value := rest.takeWhile fun g => !isQuote g
    match isQuote opening && !value.isEmpty, rest.drop value.length with
    | true, _ :: after => some (value, after)
    | _, _ => none

/-- The value in `name = "value"` at the head of a text. -/
def valueAt? (name text : Text) : Option Text :=
  if !text.startsWith name then none
  else
    let blank := Glyph.satisfies isBlank
    match (text.drop name.length).dropWhile blank with
    | equals :: rest =>
      if equals == .char '=' then (quotedValue? (rest.dropWhile blank)).map (·.1) else none
    | [] => none

/-- The first quoted value of the attribute in a selector. -/
def testIdOf? (attr selector : Text) : Option Text :=
  selector.suffixes.findSome? (valueAt? attr)

/-- The value of a selector that is nothing but `[role="value"]`. -/
def roleOf? (selector : Text) : Option Text :=
  let trimmed : Text := Blank.trimBy (Glyph.satisfies isBlank) selector
  let head : Text := "[role="
  if !trimmed.startsWith head then none
  else match quotedValue? (trimmed.drop head.length) with
    | some (value, [.char ']']) => some value
    | _ => none

/-- Value of the first pair of an object literal under a key. -/
def objectValue? (key : Text) : List Handle → Looking (Option Text)
  | [] => return none
  | pair :: rest => do
    if (← pair.kind) != .pair then objectValue? key rest
    else match ← pair.field? .key with
      | none => objectValue? key rest
      | some k =>
        let name ← match ← k.literalValue? with
          | some value => pure value
          | none => pure (Text.ofString (← k.text))
        if name == key then Handle.valueOf? (← pair.field? .value) else objectValue? key rest

/-- What the first argument of a `find` call selects by. -/
def classify (attr : Text) : Option Handle → Looking Selector
  | none => return other
  | some argument => do
    if (← argument.kind) == .object then
      match ← objectValue? attr (← argument.namedChildren) with
      | some value => return if value.isEmpty then other else testId value
      | none => return other
    else
      match ← argument.literalValue? with
      | none => return other
      | some selector =>
        match testIdOf? attr selector with
        | some value => return testId value
        | none =>
          match roleOf? selector with
          | some value => return role value
          | none => return other

def findCalls : Pattern := .methodCall (.exactly "find")

def hasKind (h : Handle) (kind : Script.Kind) : Looking Bool := return (← h.kind) == kind

/-- Is it the `x` of `expect(x).not`? -/
def isDenied (call : Handle) : Looking Bool := do
  let some arguments ← call.parent? | return false
  if !(← hasKind arguments .arguments) then return false
  let some expect ← arguments.parent? | return false
  if !(← hasKind expect .callExpression) then return false
  let some callee ← expect.field? .callee | return false
  if (← callee.text) != "expect" then return false
  let some member ← expect.parent? | return false
  if !(← hasKind member .memberExpression) then return false
  let some object ← member.field? .object | return false
  let some property ← member.field? .property | return false
  return object.same expect && (← property.text) == "not"

/-- The query that a `find` call becomes. What is expected to be absent is queried for, all
else is demanded. -/
def query? (attr : Text) (call : Handle) : Looking (Option Text) := do
  match ← classify attr (← call.firstArgument?) with
  | testId value =>
    let function : String :=
      if ← isDenied call then "screen.queryByTestId" else "screen.getByTestId"
    return some (callText function [Quoted.encode value])
  | role value => return some (callText "screen.getByRole" [Quoted.encode value])
  | other => return none

def reportUnconverted (call : Handle) : Pass Unit := do
  let shown ← (call.shownArgument "<none>" : Looking _)
  Pass.report .unconvertedSelector s!"Selector {shown} has no direct screen query" .info
    (some (← (call.line : Looking _)))

/-- Convert the `find` calls that have a query; yields how many had one. -/
def convert (attr : Text) : Pass Nat := do
  let converted ← Document.untilStable (do
    let _ ← (← (MatchSet.ofTree findCalls : Looking _)).replaceWith (query? attr)) Document.roundLimit
  for call in ← (findAll findCalls : Looking _) do
    reportUnconverted call
  return converted

end Selector

end TestMigration
