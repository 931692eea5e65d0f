import EntityGraph.Text.Basic

/-!
# Paths

A path is a text of names with slashes between them. Empty pieces and single dots name nothing; two
dots lead back to the directory above. Everything here is about the text of a path alone.
-/
namespace EntityGraph.Path

/-- A piece of a path that names nothing. -/
def isBlank (piece : String) : Bool := piece = "" || piece = "."

/-- The pieces that name something. -/
def names (path : String) : List String := (Text.split '/' path).filter (!isBlank ·)

def isAbsolute (path : String) : Bool := path.toList.head? == some '/'

/-- A path seen from a directory; an absolute path needs none. -/
def join (base path : String) : String :=
  if isAbsolute path || base.isEmpty then path
  else if base.toList.getLast? == some '/' then base ++ path
  else base ++ "/" ++ path

/-- The pieces of a path up to the last one that names something. -/
def stem (path : String) : List String :=
  ((Text.split '/' path).reverse.dropWhile isBlank).reverse

/-- The directory part: the path without its last name. -/
def parent (path : String) : String :=
  let pieces := (stem path).dropLast
  if isAbsolute path && pieces.all isBlank then "/" else "/".intercalate pieces

/-- The last name of a path, unless it leads back. -/
def fileName? (path : String) : Option String := (names path).getLast?.filter (· ≠ "..")

/-- What follows the last dot of the file name; a dot at its start does not count. -/
def extension? (path : String) : Option String := do
  let name := (← fileName? path).toList
  let ending := name.reverse.takeWhile (· ≠ '.')
  if ending.length + 1 < name.length then some (String.ofList ending.reverse) else none

/-- The path with an ending added to its file name. -/
def withEnding? (path ending : String) : Option String :=
  (fileName? path).map fun _ => "/".intercalate (stem path) ++ "." ++ ending

/-- The order of paths: by the first name that differs. -/
def le (left right : String) : Bool := !decide (names right < names left)

end EntityGraph.Path
