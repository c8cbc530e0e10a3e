import TestMigration.Convert.Import

/-! Simulated events. Those that a user can cause become calls of `userEvent`, which the file
then imports; the others are reported. -/

namespace TestMigration.Simulation

/-- The `userEvent` method for an event. -/
def userMethod? (event : Text) : Option String :=
  match event.toString? with
  | some "click" => some "click"
  | some "mouseenter" | some "mouseEnter" => some "hover"
  | some "mouseleave" | some "mouseLeave" => some "unhover"
  | _ => none

def simulateCalls : Pattern := .methodCall (.exactly "simulate")

/-- `x.simulate("click")` becomes `userEvent.click(x)`. -/
def userCall? (call : Handle) : Looking (Option Text) := do
  let event ← Handle.valueOf? (← call.firstArgument?)
  match event.bind userMethod?, ← call.receiver? with
  | some method, some receiver =>
    return some (callText ("userEvent." ++ method) [← receiver.text])
  | _, _ => return none

def reportUnmapped (call : Handle) : Pass Unit := do
  let shown ← (call.shownArgument "" : Looking _)
  Pass.report .unmappedSimulateEvent s!"simulate({shown}) has no userEvent equivalent" .info
    (some (← (call.line : Looking _)))

/-- Calls whose event is a string. -/
def namedCalls : Pattern := simulateCalls.withArguments (some [.ofKind .string]) none none

/-- Import what the converted calls use, unless the file does already. -/
def importUserEvent (converted : Nat) : Pass Unit := do
  let imported ← (Import.isImported Import.userEventModule : Looking _)
  if converted != 0 && !imported then Document.insertAtTop Import.userEventLine

/-- Convert simulated events; yields how many became user events. -/
def convert : Pass Nat := do
  let converted ← Document.untilStable (do
    let _ ← (← (MatchSet.ofTree namedCalls : Looking _)).replaceWith userCall?) Document.roundLimit
  for call in ← (findAll simulateCalls : Looking _) do
    reportUnmapped call
  importUserEvent converted
  return converted

end TestMigration.Simulation
