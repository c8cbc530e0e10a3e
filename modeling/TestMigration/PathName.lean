/-! Names of files and directories. A name is relative, or begins at the root with one slash
or with exactly two; empty parts and single dots are dropped when it is read, double dots
are kept until the name is made absolute. -/

namespace TestMigration

/-- Drop each double dot together with the part it cancels. At the root a double dot leads
nowhere; at the head of a relative path it stays. -/
def cancelUps {α : Type} [BEq α] (up : α) (rooted : Bool) (parts : List α) : List α :=
  (parts.foldl (fun kept part =>
    if part != up then part :: kept
    else match kept with
      | [] => if rooted then [] else [up]
      | last :: rest => if last == up then up :: kept else rest) []).reverse

/-- Number of slashes at the head that count: more than two are the same as one. -/
def leadingSlashes {α : Type} (isSlash : α → Bool) (text : List α) : Nat :=
  match (text.takeWhile isSlash).length with
  | 0 => 0
  | 2 => 2
  | _ => 1

/-- The names between slashes, the empty ones among them. -/
def slashParts (s : String) : List String := (s.toList.splitOn '/').map String.ofList

structure PathName where
  slashes : Nat
  parts : List String
  deriving DecidableEq, Repr, Inhabited

namespace PathName

def root : PathName := ⟨1, []⟩

def ofString (s : String) : PathName :=
  ⟨leadingSlashes (· == '/') s.toList, (slashParts s).filter fun part => part != "" && part != "."⟩

instance : ToString PathName where
  toString p :=
    let text := String.ofList (List.replicate p.slashes '/') ++ "/".intercalate p.parts
    if text == "" then "." else text

def isAbsolute (p : PathName) : Bool := p.slashes != 0

/-- The last part. -/
def name (p : PathName) : String := p.parts.getLastD ""

/-- The directory that holds it; the root and the empty path are their own. -/
def parent (p : PathName) : PathName := { p with parts := p.parts.dropLast }

/-- `q` seen from `p`; an absolute `q` stands for itself. -/
def join (p q : PathName) : PathName :=
  if q.isAbsolute then q else { p with parts := p.parts ++ q.parts }

instance : HDiv PathName String PathName := ⟨fun p s => p.join (ofString s)⟩

/-- Parts of a file name before and from the last dot on. A dot that begins or ends the name
separates nothing. -/
def splitName (name : String) : String × String :=
  let tail := name.toList.reverse.takeWhile (· != '.')
  let head := name.toList.reverse.drop (tail.length + 1)
  if tail.isEmpty || head.isEmpty || tail.length == name.length then (name, "")
  else (String.ofList head.reverse, String.ofList ('.' :: tail.reverse))

/-- The name without its extension. -/
def stem (p : PathName) : String := (splitName p.name).1

/-- The extension with its dot. -/
def extension (p : PathName) : String := (splitName p.name).2

/-- The same place from the root, without double dots. -/
def absolute (p cwd : PathName) : PathName :=
  let p := cwd.join p
  { p with parts := cancelUps ".." p.isAbsolute p.parts }

/-- Absolute, with a single slash at the root: two spellings of one place become equal. -/
def resolve (p cwd : PathName) : PathName := { p.absolute cwd with slashes := 1 }

/-- Is `p` the place `q` or below it? -/
def isWithin (p q : PathName) : Bool := p.slashes == q.slashes && q.parts.isPrefixOf p.parts

/-- What leads from `q` to `p`. -/
def relativeTo? (p q : PathName) : Option PathName :=
  if p.isWithin q then some ⟨0, p.parts.drop q.parts.length⟩ else none

/-- Where the converted copy of a file goes: next to the source or into `directory`, with a
suffix after the stem and another extension if one is given. -/
def target (source : PathName) (directory : Option String) (suffix : String)
    (extension : Option String) : PathName :=
  let extension := match extension with
    | none => source.extension
    | some e => if e == "" || e.startsWith "." then e else "." ++ e
  let directory := match directory with
    | some d => if d == "" then source.parent else ofString d
    | none => source.parent
  directory / (source.stem ++ suffix ++ extension)

end PathName

end TestMigration
