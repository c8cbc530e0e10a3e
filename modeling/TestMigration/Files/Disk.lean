import TestMigration.Files.Encoding
import TestMigration.PathName

/-! Files and directories. A disk knows what stands at which place; a place is the list of names
that leads to it from the root. A path is followed name by name, and every name but the last
must be that of a directory. An operation either fails and changes nothing or is carried out
as a whole. -/

namespace TestMigration

inductive Item where
  | file (bytes : ByteArray)
  | directory
  deriving Inhabited

/-- The names from the root on. -/
abbrev Route := List String

structure Disk where
  items : List (Route × Item)
  /-- The directory from which relative paths are followed. -/
  cwd : Route
  deriving Inhabited

/-- Why a path leads nowhere, or not to what is wanted. -/
inductive Fault where
  | missing
  | notDirectory
  | isDirectory
  | taken
  | tooLong
  | zero
  deriving DecidableEq, Repr, Inhabited

namespace Fault

/-- The failure of an operation on a path. A zero character is refused before the disk is
asked, each operation in its own words. -/
def failure (path operation : String) : Fault → Failure
  | missing => .of .noSuchFile s!"[Errno 2] No such file or directory: {Shown.quoted path}"
  | notDirectory => .of .notDirectory s!"[Errno 20] Not a directory: {Shown.quoted path}"
  | isDirectory => .of .isDirectory s!"[Errno 21] Is a directory: {Shown.quoted path}"
  | taken => .of .fileExists s!"[Errno 17] File exists: {Shown.quoted path}"
  | tooLong => .of .system s!"[Errno 36] File name too long: {Shown.quoted path}"
  | zero => .of .badValue
      (if operation == "open" then "embedded null byte"
        else s!"{operation}: embedded null character in path")

end Fault

namespace Disk

def ofPath (cwd : PathName) : Disk := ⟨[], cwd.parts⟩

/-- What stands at a place. The root is always there. -/
def get? (d : Disk) (p : Route) : Option Item :=
  if p.isEmpty then some .directory else (d.items.find? (·.1 == p)).map (·.2)

def put (d : Disk) (p : Route) (item : Item) : Disk :=
  { d with
    items := if d.items.any (·.1 == p) then d.items.map fun e => if e.1 == p then (p, item) else e
      else d.items ++ [(p, item)] }

/-- Put an item at a place and make the directories that lead there. -/
def plant (d : Disk) (p : Route) (item : Item) : Disk :=
  ((List.range (p.length - 1)).foldl (fun d n => d.put (p.take (n + 1)) .directory) d).put p item

/-- The items of a disk that are not the same on an earlier one. -/
def changes (before after : Disk) : List (Route × Item) :=
  after.items.filter fun (p, item) =>
    match before.get? p, item with
    | some .directory, .directory => false
    | some (.file a), .file b => a.data != b.data
    | _, _ => true

/-- The names in a directory. -/
def namesIn (d : Disk) (p : Route) : List String :=
  d.items.filterMap fun (q, _) => if q.dropLast == p then q.getLast? else none

/-- Follow names from a place on. -/
def follow (d : Disk) : Route → List String → Except Fault Route
  | p, [] => .ok p
  | p, name :: rest =>
    match d.get? p with
    | none => .error .missing
    | some (.file _) => .error .notDirectory
    | some .directory =>
      if name == "" || name == "." then follow d p rest
      else if name == ".." then follow d p.dropLast rest
      else if name.utf8ByteSize > 255 then .error .tooLong
      else follow d (p ++ [name]) rest

/-- The place that a path leads to; nothing need stand there. -/
def find (d : Disk) (path : String) : Except Fault Route :=
  if path == "" then .error .missing
  else if path.toList.contains '\x00' then .error .zero
  else if path.utf8ByteSize > 4095 then .error .tooLong
  else d.follow (if path.startsWith "/" then [] else d.cwd) (slashParts path)

def item? (d : Disk) (path : String) : Option Item := (d.find path).toOption.bind d.get?

def exists? (d : Disk) (path : String) : Bool := (d.item? path).isSome

def isFile (d : Disk) (path : String) : Bool := (d.item? path) matches some (.file _)

def isDirectory (d : Disk) (path : String) : Bool := (d.item? path) matches some .directory

end Disk

/-- An operation on a disk. -/
abbrev Filing := EStateM Failure Disk

namespace Filing

def failWith {α : Type} (path operation : String) (f : Fault) : Filing α :=
  throw (f.failure path operation)

def find (path operation : String) : Filing Route := do
  match (← get).find path with
  | .ok p => return p
  | .error f => failWith path operation f

/-- Bytes that an entry takes. -/
def size (path : String) : Filing Nat := do
  let p ← find path "stat"
  match (← get).get? p with
  | none => failWith path "stat" .missing
  | some .directory => return 4096
  | some (.file bytes) => return bytes.size

def readBytes (path : String) : Filing ByteArray := do
  let p ← find path "open"
  match (← get).get? p with
  | none => failWith path "open" .missing
  | some .directory => failWith path "open" .isDirectory
  | some (.file bytes) => return bytes

def readText (path : String) : Filing String := do
  MonadExcept.ofExcept (textOfBytes (← readBytes path))

/-- Make a file, or give one new contents. A path that ends in a slash names a directory. -/
def writeBytes (path : String) (bytes : ByteArray) : Filing Unit := do
  let p ← find path "open"
  match (← get).get? p with
  | some .directory => failWith path "open" .isDirectory
  | some (.file _) => modify (·.put p (.file bytes))
  | none =>
    if path.endsWith "/" then failWith path "open" .isDirectory
    else modify (·.put p (.file bytes))

def writeText (path text : String) : Filing Unit := writeBytes path text.toUTF8

def makeDirectory (path : String) : Filing Unit := do
  let p ← find path "mkdir"
  match (← get).get? p with
  | some _ => failWith path "mkdir" .taken
  | none => modify (·.put p .directory)

/-- Make a directory unless it is there. -/
def ensureOne (p : PathName) : Filing Unit :=
  tryCatch (makeDirectory (toString p)) fun e => do
    if e.kind.isSystem && e.kind != .noSuchFile && (← get).isDirectory (toString p) then return ()
    else throw e

/-- Make a directory and those above it, as far as they are missing. Only the last of `parts`
is left out when a directory above is made. -/
def ensureFrom (slashes : Nat) : List String → Filing Unit
  | [] => ensureOne ⟨slashes, []⟩
  | last :: above =>
    let p : PathName := ⟨slashes, (last :: above).reverse⟩
    tryCatch (ensureOne p) fun e => do
      if e.kind != .noSuchFile then throw e
      ensureFrom slashes above
      ensureOne p

def ensureDirectory (p : PathName) : Filing Unit := ensureFrom p.slashes p.parts.reverse

/-- Make the directory in which a file is to stand. -/
def ensureParent (target : PathName) : Filing Unit :=
  tryCatch (ensureDirectory target.parent) fun e =>
    if e.kind.isSystem then
      throw (.invalidPath s!"Cannot create parent directory: {e.shown}" "parent_creation"
        (toString target.parent))
    else throw e

/-- Copy a file byte by byte. -/
def copy (source target : String) : Filing Unit := do
  writeBytes target (← readBytes source)

end Filing

end TestMigration
