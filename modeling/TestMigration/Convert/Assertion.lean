import TestMigration.Convert.Pass

/-! Assertions on a wrapper's text or presence become assertions on the page element. -/

namespace TestMigration.Assertion

/-- The argument of `expect(…)`, if it is the only one and matches. -/
def expectArgument? (expect : Option Handle) (p : Pattern) : Looking (Option Handle) := do
  match expect with
  | none => return none
  | some call =>
    if !(← ((Pattern.callTo (.exactly "expect")).withCount 1).holdsOf call) then return none
    match ← call.firstArgument? with
    | none => return none
    | some argument => return if ← p.holdsOf argument then some argument else none

/-- What a method call is made on. -/
def subject? (assertion : Handle) : Looking (Option Handle) := do
  match ← assertion.field? .callee with
  | some callee => callee.field? .object
  | none => return none

/-- `outer` with the call replaced by its receiver. -/
def withReceiver (outer call : Handle) : Looking String := do
  let receiver ← match ← call.receiver? with
    | some r => r.text
    | none => pure ""
  outer.textWith [(call, receiver)]

def textCall : Pattern := (Pattern.methodCall (.exactly "text")).withCount 0

def existsCall : Pattern := (Pattern.methodCall (.exactly "exists")).withCount 0

/-- `expect(x.text()).toBe(y)` becomes `expect(x).toHaveTextContent(y)`. -/
def textContent? (assertion : Handle) : Looking (Option Text) := do
  let expect ← subject? assertion
  match expect, ← expectArgument? expect textCall with
  | some expect, some call =>
    let subject ← withReceiver expect call
    return some (callText (subject ++ ".toHaveTextContent") [← assertion.argumentText])
  | _, _ => return none

def textMatchers : List String := ["toEqual", "toContain", "toBe"]

/-- Convert text assertions; yields how many there were. -/
def convertText : Pass Nat := do
  (← (MatchSet.ofTree (.methodCall (.oneOf textMatchers)) : Looking _)).replaceWith textContent?

/-- The truth value that is a matcher's only argument. -/
def literalExpectation? (assertion : Handle) : Looking (Option Bool) := do
  match ← assertion.field? .arguments with
  | none => return none
  | some list =>
    match ← list.namedChildren with
    | [argument] =>
      match ← argument.kind with
      | .trueLiteral => return some true
      | .falseLiteral => return some false
      | _ => return none
    | _ => return none

/-- What a presence matcher expects, apart from a `not`; none if it is no such matcher. -/
def expectation? (assertion : Handle) : Looking (Option Bool) := do
  match ← assertion.methodName? with
  | some "toBe" | some "toEqual" => literalExpectation? assertion
  | some "toBeTruthy" => return if (← assertion.argumentText) == "" then some true else none
  | some "toBeFalsy" => return if (← assertion.argumentText) == "" then some false else none
  | _ => return none

/-- The object of a `.not`, if the node is one. -/
def denied? (subject : Handle) : Looking (Option Handle) := do
  if (← subject.kind) != .memberExpression then return none
  match ← subject.field? .property with
  | none => return none
  | some property => if (← property.text) == "not" then subject.field? .object else return none

/-- `expect(x.exists())` as an assertion about `x`; an expectation of absence has a `not`. -/
def restated? (present : Bool) (expect : Handle) : Looking (Option Text) := do
  let some call ← expectArgument? (some expect) existsCall | return none
  let shown ← withReceiver expect call
  let negation := if present then "" else ".not"
  return some (Text.ofString (shown ++ negation ++ ".toBeInTheDocument()"))

/-- `expect(x.exists()).toBe(true)` becomes `expect(x).toBeInTheDocument()`. A `not` turns what is
expected round. -/
def presence? (assertion : Handle) : Looking (Option Text) := do
  let some expected ← expectation? assertion | return none
  let some subject ← subject? assertion | return none
  match ← denied? subject with
  | some inner => restated? (!expected) inner
  | none => restated? expected subject

def presenceMatchers : List String := ["toBe", "toEqual", "toBeTruthy", "toBeFalsy"]

/-- Convert presence assertions; yields how many there were. -/
def convertPresence : Pass Nat := do
  (← (MatchSet.ofTree (.methodCall (.oneOf presenceMatchers)) : Looking _)).replaceWith presence?

end TestMigration.Assertion
