import TestMigration.Tree.Pattern
import TestMigration.Text.Quoted

/-! Parts of calls, imports and literals, and the text of new calls. -/

namespace TestMigration

open Script (Node Kind Field Place)

namespace Handle

def firstArgument? (call : Handle) : Looking (Option Handle) := do
  return (← callArguments call).head?

/-- Source text of the first argument, for a message. -/
def shownArgument (call : Handle) (absent : String) : Looking String := do
  match ← call.firstArgument? with
  | some argument => argument.text
  | none => return absent

/-- Source text between the call's parentheses, trimmed. A tagged template has its template
there. -/
def argumentText (call : Handle) : Looking String := do
  match ← call.field? .arguments with
  | none => return ""
  | some list => return Blank.trim (String.ofList ((← list.text).toList.drop 1).dropLast)

/-- The member expression that is called. -/
def calledMember? (call : Handle) : Looking (Option Handle) := do
  match ← call.field? .callee with
  | none => return none
  | some callee => return if (← callee.kind) == .memberExpression then some callee else none

/-- `x` in `x.method(…)`. -/
def receiver? (call : Handle) : Looking (Option Handle) := do
  match ← call.calledMember? with
  | none => return none
  | some callee => callee.field? .object

/-- `method` in `x.method(…)`. -/
def methodName? (call : Handle) : Looking (Option String) := do
  match ← call.calledMember? with
  | none => return none
  | some callee =>
    match ← callee.field? .property with
    | none => return none
    | some property => return some (← property.text)

mutual

/-- What an `await` waits for, through any number of them. -/
def awaitedIn (above : List Node) : Node → Option Place
  | n@(.mk _ kind _ _ children) =>
    if kind == .awaitExpression then awaitedAmong (n :: above) children else some ⟨n, above⟩

def awaitedAmong (above : List Node) : List Node → Option Place
  | [] => none
  | n :: rest =>
    if n.kind.isNamed && n.kind != .comment then awaitedIn above n else awaitedAmong above rest

end

def awaited? (h : Handle) : Looking (Option Handle) := do
  let place ← h.fresh
  match awaitedIn place.above place.node with
  | some p => return some (← on p)
  | none => return none

/-- The literal that names the module of an import or a re-export. -/
def moduleLiteral? (statement : Handle) : Looking (Option Handle) := do
  match ← statement.field? .source with
  | some literal => return some literal
  | none =>
    if (← statement.kind) != .importStatement then return none
    (← statement.namedChildren).findM? fun child => return (← child.kind) == .string

/-- The value of a plain string literal. -/
def literalValue? (h : Handle) : Looking (Option Text) := do
  if (← h.kind) != .string then return none
  match Quoted.decode ((← h.text).toList.drop 1).dropLast with
  | .ok value => return some value
  | .error _ => throw (.of .badValue "chr() arg not in range(0x110000)")

/-- Value of the literal, if there is a node and it is a literal. -/
def valueOf? : Option Handle → Looking (Option Text)
  | none => return none
  | some h => h.literalValue?

end Handle

/-- The text of a call. -/
def callText (callee : Text) (arguments : List Text) : Text :=
  callee ++ .char '(' :: Text.join ", " arguments ++ [.char ')']

end TestMigration
