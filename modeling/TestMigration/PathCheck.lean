import TestMigration.Failure
import TestMigration.PathName
import TestMigration.Text.Blank

/-! Which names a file to read or to write may have. A blank name is refused, and so is one
whose last part holds a character that some file systems do not allow. -/

namespace TestMigration.PathName

/-- Characters that no file name may hold. -/
def refusedChars : String := "<>:\"|?*"

def hasRefusedChar (p : PathName) : Bool := p.name.toList.any fun c => refusedChars.toList.contains c

def check (role given shown : String) (p : PathName) : Except Failure PathName :=
  if (Blank.trim given).isEmpty then
    throw (.invalidPath s!"{role} path cannot be empty" "empty_path" given)
  else if p.hasRefusedChar then
    throw (.invalidPath s!"Path contains invalid characters: {refusedChars}" "invalid_chars" shown)
  else return p

/-- A file to read. A refusal names it as it was given. -/
def ofSource (given : String) : Except Failure PathName :=
  check "Source" given given (ofString given)

/-- A file to write. A refusal names it as it is read. -/
def ofTarget (given : String) : Except Failure PathName :=
  check "Target" given (toString (ofString given)) (ofString given)

/-- Where the copy of a file goes before the file is overwritten: next to it, or straight into
`directory`. -/
def backup (source : PathName) (directory : Option String) : PathName :=
  (match directory with
    | some d => if d == "" then source.parent else ofString d
    | none => source.parent) / (source.name ++ ".backup")

end TestMigration.PathName
