import TestMigration.Command.Session

/-! The command line. What its arguments can reach is read into a disk, the command runs on that
disk, and what it has changed there is written back. -/

namespace TestMigration

private def pathOf (p : Route) : String := "/" ++ "/".intercalate p

/-- Add what stands at a place, with all that is below it. Links to directories are not followed,
and what cannot be read is left out. -/
private partial def loadItem (d : Disk) (p : Route) : IO Disk := do
  match ← (IO.FS.readBinFile (pathOf p)).toBaseIO with
  | .ok bytes => return d.plant p (.file bytes)
  | .error _ =>
    let .ok real ← (IO.FS.realPath (pathOf p)).toBaseIO | return d
    let .ok entries ← real.readDir.toBaseIO | return d
    let mut d := d.plant p .directory
    for entry in entries do
      let .ok target ← (IO.FS.realPath entry.path).toBaseIO | continue
      if target == entry.path || !(← target.isDir) then d ← loadItem d (p ++ [entry.fileName])
    return d

/-- Add the directories that lead to a place as far as there are any. -/
private def loadWay (d : Disk) (p : Route) : IO Disk :=
  (List.range p.length).foldlM (fun d n => do
    match ← (IO.FS.realPath (pathOf (p.take (n + 1)))).toBaseIO with
    | .ok real => return if ← real.isDir then d.plant (p.take (n + 1)) .directory else d
    | .error _ => return d) d

/-- The working directory and the places that arguments may name, alone or after an equals sign. -/
private def reachable (cwd : PathName) (arguments : List String) : List Route :=
  let words := arguments.flatMap fun a => a :: ((a.splitOn "=").drop 1).take 1
  cwd.parts :: (words.map fun w => ((PathName.ofString w).resolve cwd).parts).filter
    fun p => !cwd.parts.isPrefixOf p && !p.isPrefixOf cwd.parts

private def writeItem (p : Route) : Item → IO Unit
  | .directory => IO.FS.createDirAll (pathOf p)
  | .file bytes => IO.FS.writeBinFile (pathOf p) bytes

/-- Run a command line in a directory; yields its status. -/
def runIn (cwd : PathName) (arguments : List String) : IO UInt32 := do
  let places := reachable cwd arguments
  let disk ← places.foldlM (fun d p => do loadItem (← loadWay d p) p) (Disk.ofPath cwd)
  let runId := toString (← IO.rand 0 (Nat.pow 10 18))
  let (answered, after) := (Command.run arguments runId).run disk
  for (p, item) in disk.changes after.state do writeItem p item
  match answered with
  | .ok answer =>
    IO.print answer.printed
    if let some e := answer.failure then IO.eprintln s!"{e.kind.name}: {e.shown}"
    return answer.status.toUInt32
  | .error e =>
    IO.eprintln s!"{e.kind.name}: {e.shown}"
    return 1

end TestMigration

def main (arguments : List String) : IO UInt32 := do
  let cwd ← IO.currentDir
  TestMigration.runIn (.ofString cwd.toString) arguments
