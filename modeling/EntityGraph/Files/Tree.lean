import EntityGraph.Files.Access
import EntityGraph.Files.Path

/-!
# File trees

The files below one directory as a value: the names that lead to each file, and its text. A
directory exists as far as a file lies below it; the topmost one always exists, is the one in which
relative paths start, and nothing outside it can be reached.
-/
namespace EntityGraph

structure FileTree where
  files : List (List String × String)
  deriving Inhabited, Repr

namespace FileTree

/-- What a path can lead to. -/
inductive Node where
  | file (names : List String) (text : String)
  | directory (names : List String)
  deriving Inhabited, Repr

/-- The longest name that a file can have, in octets. -/
def maxNameSize : Nat := 255

def ofList (files : List (String × String)) : FileTree :=
  ⟨files.map fun (path, text) => (Path.names path, text)⟩

def text? (tree : FileTree) (names : List String) : Option String :=
  (tree.files.find? (·.1 == names)).map (·.2)

def hasDirectory (tree : FileTree) (names : List String) : Bool :=
  names.isEmpty || tree.files.any fun entry => names.isPrefixOf entry.1 && names != entry.1

/-- The node of that name in a directory. -/
def child (tree : FileTree) (names : List String) (name : String) : Except FileFailure Node :=
  let names := names ++ [name]
  if name.utf8ByteSize > maxNameSize then .error .nameTooLong
  else
    match tree.text? names with
    | some text => .ok (.file names text)
    | none => if tree.hasDirectory names then .ok (.directory names) else .error .notFound

/-- Goes one piece of a path further. -/
def step (tree : FileTree) : Node → String → Except FileFailure Node
  | .file _ _, _ => .error .notDirectory
  | .directory names, piece =>
    if Path.isBlank piece then .ok (.directory names)
    else if piece = ".." then
      if names.isEmpty then .error .notFound else .ok (.directory names.dropLast)
    else tree.child names piece

/-- What a path leads to. -/
def resolve (tree : FileTree) (path : String) : Except FileFailure Node :=
  if path.toList.contains '\x00' then .error .zeroInName
  else if path.isEmpty then .error .notFound
  else if Path.isAbsolute path then
    if (Path.names path).isEmpty then .ok (.directory []) else .error .notFound
  else (Text.split '/' path).foldlM (step tree) (.directory [])

def read (tree : FileTree) (path : String) : Except FileFailure String := do
  match ← tree.resolve path with
  | .file _ text => return text
  | .directory _ => throw .isDirectory

def isFile (tree : FileTree) (path : String) : Bool :=
  match tree.resolve path with
  | .ok (.file _ _) => true
  | _ => false

def isDirectory (tree : FileTree) (path : String) : Bool :=
  match tree.resolve path with
  | .ok (.directory _) => true
  | _ => false

/-- The paths of all files below a directory, or the path itself if it leads to a file. -/
def listing (tree : FileTree) (path : String) : List String :=
  match tree.resolve path with
  | .ok (.file _ _) => [path]
  | .ok (.directory names) =>
    (tree.files.filter fun entry => names.isPrefixOf entry.1).map fun entry =>
      Path.join path ("/".intercalate (entry.1.drop names.length))
  | .error _ => []

/-- The path without detours from the topmost directory. -/
def place? (tree : FileTree) (path : String) : Option String :=
  match tree.resolve path with
  | .ok (.file names _) | .ok (.directory names) => some ("/".intercalate names)
  | .error _ => none

/-- The access of a program that only reads. -/
def access (tree : FileTree) : FileAccess Id :=
  { read := tree.read
    isFile := tree.isFile
    isDirectory := tree.isDirectory
    listing := tree.listing
    place? := tree.place?
    limit := tree.files.length }

/-- The directory that the pieces lead to. -/
def directory (tree : FileTree) (pieces : List String) : Except FileFailure (List String) := do
  match ← pieces.foldlM (step tree) (.directory []) with
  | .directory names => return names
  | .file _ _ => throw .notDirectory

/-- Puts a text into a file of the tree, which may be new. -/
def put (tree : FileTree) (names : List String) (text : String) : FileTree :=
  if (tree.text? names).isSome then
    ⟨tree.files.map fun entry => if entry.1 == names then (names, text) else entry⟩
  else ⟨tree.files ++ [(names, text)]⟩

/-- Writes to a path below the topmost directory; a slash at its end means a directory. -/
def writeBelow (tree : FileTree) (pieces : List String) (name text : String) (slash : Bool) :
    Except FileFailure FileTree := do
  let names ← tree.directory pieces
  if slash || Path.isBlank name || name = ".." then throw .isDirectory
  match tree.child names name with
  | .ok (.directory _) => throw .isDirectory
  | .ok (.file names _) => return tree.put names text
  | .error .notFound => return tree.put (names ++ [name]) text
  | .error failure => throw failure

/-- The tree after a text has been written to a file. The file may be new, its directory not. -/
def write (tree : FileTree) (path text : String) : Except FileFailure FileTree :=
  let pieces := Text.split '/' path
  let core := (pieces.reverse.dropWhile (· = "")).reverse
  if path.toList.contains '\x00' then .error .zeroInName
  else if Path.isAbsolute path then
    .error (if (Path.names path).isEmpty then .isDirectory else .notFound)
  else
    match core.getLast? with
    | none => .error .notFound
    | some name => tree.writeBelow core.dropLast name text (core.length < pieces.length)

end FileTree

end EntityGraph
