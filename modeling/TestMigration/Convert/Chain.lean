import TestMigration.Convert.Pass

/-! Calls in a chain that have no effect on the page: they give way to their receivers. -/

namespace TestMigration.Chain

def calls (method : TextTest) : Pattern := (Pattern.methodCall method).withCount 0

def receiverText (call : Handle) : Looking (Option Text) := do
  match ← call.receiver? with
  | some r => return some (Text.ofString (← r.text))
  | none => return none

/-- A statement that only updates a plain variable is deleted; any other `update()` gives
way to its receiver. -/
def removeUpdate (call : Handle) : Editing Unit := do
  match ← (call.receiver? : Looking _), ← (call.parent? : Looking _) with
  | some receiver, some parent =>
    if (← (parent.kind : Looking _)) == .expressionStatement &&
        (← (receiver.kind : Looking _)) == .identifier then
      parent.remove
    else call.replaceWith (← (receiver.text : Looking _))
  | _, _ => throw (.of .missingAttribute "the call has no receiver")

/-- Remove `first()`, `hostNodes()` and `update()` from chains; yields how many. -/
def removeIdle : Pass Nat :=
  Document.untilStable (do
    let _ ← (← (MatchSet.ofTree (calls (.oneOf ["first", "hostNodes"])) : Looking _)).replaceWith
      receiverText
    for call in ← (findAll (calls (.exactly "update")) : Looking _) do
      removeUpdate call) Document.roundLimit

end TestMigration.Chain
