import TestMigration.PathName
import TestMigration.Text.Glyph

/-! Module specifiers. A relative one is resolved against the directory of the importing
file, so that it still names the same module wherever the converted file goes. -/

namespace TestMigration.Specifier

def slash : Glyph := .char '/'

def isRelative (specifier : Text) : Bool :=
  specifier.startsWith "./" || specifier.startsWith "../" ||
    specifier == Text.ofString "." || specifier == Text.ofString ".."

/-- A path text without empty parts and dots; double dots cancel what is before them. -/
def normalise (path : Text) : Text :=
  let slashes := leadingSlashes (· == slash) path
  let parts := (path.splitOn slash).filter fun part => !part.isEmpty && part != Text.ofString "."
  let parts := cancelUps (Text.ofString "..") (slashes != 0) parts
  match List.replicate slashes slash ++ Text.join [slash] parts with
  | [] => "."
  | text => text

/-- The specifier seen from the file's directory, from the root on. -/
def resolve (cwd : PathName) (file : String) (specifier : Text) : Text :=
  let directory := toString ((PathName.ofString file).absolute cwd).parent
  let path :=
    if specifier.startsWith [slash] then specifier
    else if directory.endsWith "/" then directory ++ specifier
    else directory ++ slash :: specifier
  normalise path

/-- Specifiers with one of these in them stay as they are. -/
def preserved : List String := ["./enzyme-mount-adapter"]

def needsResolving (specifier : Text) : Bool :=
  isRelative specifier && !preserved.any fun kept => specifier.contains kept

end TestMigration.Specifier
