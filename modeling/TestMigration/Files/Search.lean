import TestMigration.Files.Disk
import TestMigration.Files.NamePattern

/-! Files that a pattern describes. A search below a directory sees hidden files as well; the
expansion of a written pattern passes them by unless the pattern itself begins with a dot. -/

namespace TestMigration

/-- The sign for any directories, also none. -/
def anyDepth : String := "**"

namespace Disk

/-! ## Search below a directory -/

/-- Do the parts of a pattern describe the names that lead to a file? -/
def describes : List String → List String → Bool
  | [], names => names.isEmpty
  | part :: parts, names =>
    if part == anyDepth then
      match names with
      | [] => false
      | _ :: rest => describes parts names || describes (part :: parts) rest
    else
      match names with
      | [] => false
      | name :: rest => NamePattern.holdsOf part name && describes parts rest
termination_by parts names => (parts.length, names.length)

/-- The names that lead from a place to the files below it. -/
def filesBelow (d : Disk) (p : Route) : List (List String) :=
  d.items.filterMap fun (q, item) =>
    match item with
    | .file _ => if p.isPrefixOf q then some (q.drop p.length) else none
    | .directory => none

/-- Files below a directory that a pattern describes, at any depth if `recurse`. -/
def search (d : Disk) (directory : PathName) (recurse : Bool) (pattern : String) :
    Except Failure (List PathName) :=
  let parsed := PathName.ofString pattern
  if parsed.isAbsolute then throw (.of .unsupported "Non-relative patterns are unsupported")
  else if parsed.parts.isEmpty && !recurse then
    throw (.of .badValue s!"Unacceptable pattern: {Shown.quoted pattern}")
  else
    let parts := if recurse then anyDepth :: parsed.parts else parsed.parts
    match d.find (toString directory) with
    | .error _ => return []
    | .ok p =>
      return ((d.filesBelow p).filter (describes parts)).map fun names =>
        { directory with parts := directory.parts ++ names }

/-! ## Expansion of a written pattern -/

/-- A path before and after its last slash; slashes that end the first half are dropped unless
there is nothing else. -/
def splitPath (path : String) : String × String :=
  let tail := path.toList.reverse.takeWhile (· != '/')
  let head := path.toList.reverse.drop tail.length
  let kept := head.dropWhile (· == '/')
  (String.ofList (if kept.isEmpty then head else kept).reverse, String.ofList tail.reverse)

/-- A name seen from a directory; an absolute one stands for itself. -/
def joinPath (directory name : String) : String :=
  if name.startsWith "/" then name
  else if directory == "" || directory.endsWith "/" then directory ++ name
  else directory ++ "/" ++ name

def isHidden (name : String) : Bool := name.startsWith "."

def placeOf? (d : Disk) (directory : String) : Option Route :=
  (d.find (if directory == "" then "." else directory)).toOption

def isDirectoryAt (d : Disk) (p : Route) : Bool := d.get? p matches some .directory

/-- Every path below a directory without a hidden name in it, and the empty path for the directory
itself. -/
def namesBelow (d : Disk) (directory : String) (onlyDirectories : Bool) : List String :=
  match placeOf? d directory with
  | none => []
  | some p =>
    if !isDirectoryAt d p then []
    else "" :: d.items.filterMap fun (q, item) =>
      let names := q.drop p.length
      if p.isPrefixOf q && !names.isEmpty && !names.any isHidden &&
          (!onlyDirectories || item matches .directory) then some ("/".intercalate names)
      else none

def namesMatching (d : Disk) (directory pattern : String) (onlyDirectories : Bool) :
    List String :=
  match placeOf? d directory with
  | none => []
  | some p => (d.namesIn p).filter fun name =>
    (isHidden pattern || !isHidden name) && NamePattern.holdsOf pattern name &&
      (!onlyDirectories || isDirectoryAt d (p ++ [name]))

def namesFor (d : Disk) (recurse : Bool) (directory base : String)
    (onlyDirectories : Bool) : List String :=
  if NamePattern.isPattern base then
    if recurse && base == anyDepth then namesBelow d directory onlyDirectories
    else namesMatching d directory base onlyDirectories
  else if base == "" then if d.isDirectory directory then [""] else []
  else if d.exists? (joinPath directory base) then [base] else []

def expandFrom (d : Disk) (recurse : Bool) : Nat → String → Bool → List String
  | 0, _, _ => []
  | fuel + 1, path, onlyDirectories =>
    let (directory, base) := splitPath path
    if !NamePattern.isPattern path then
      if (if base == "" then d.isDirectory directory else d.exists? path) then [path] else []
    else if directory == "" then namesFor d recurse "" base onlyDirectories
    else
      let directories :=
        if directory != path && NamePattern.isPattern directory then
          expandFrom d recurse fuel directory true
        else [directory]
      directories.flatMap fun directory =>
        (namesFor d recurse directory base onlyDirectories).map (joinPath directory)

/-- Paths that a written pattern stands for. Two stars between slashes stand for any directories
if `recurse`. -/
def expand (d : Disk) (recurse : Bool) (pattern : String) : List String :=
  expandFrom d recurse (pattern.length + 1) pattern false

end Disk

end TestMigration
