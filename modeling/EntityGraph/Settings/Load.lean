import EntityGraph.Files.Tree
import EntityGraph.Settings.Layers

/-!
# Loading settings

The sources of settings in the order in which they come: files of fixed names in the working
directory, a file in the directory for the settings of the user, the file that is asked for, and
the variables of the environment. A file that nobody asked for may be missing; a file that is there
and is not well formed is an error.
-/
namespace EntityGraph

namespace Layer

/-- The settings files of a working directory. -/
def standardPaths : List String := ["entities.toml", ".entities.toml", "config/entities.toml"]

/-- The value of a variable, unless it is empty. -/
def valueOf? (environment : List (String × String)) (name : String) : Option String :=
  ((environment.find? (·.1 == name)).map (·.2)).filter (· ≠ "")

/-- The settings file of the user. -/
def userPath? (environment : List (String × String)) : Option String :=
  let stated := (valueOf? environment "XDG_CONFIG_HOME").filter Path.isAbsolute
  let directory := stated <|> (valueOf? environment "HOME").map fun home => Path.join home ".config"
  directory.map fun directory => Path.join directory "schema-entities/entities.toml"

variable {m : Type → Type} [Monad m]

/-- The first of the files that a path with an added ending leads to. -/
def findEnding (files : FileAccess m) (path : String) : List Format → m (Option (String × Format))
  | [] => return none
  | format :: rest =>
    match Path.withEnding? path format.ending with
    | none => findEnding files path rest
    | some candidate => do
      if ← files.isFile candidate then return some (candidate, format)
      findEnding files path rest

/-- The settings file that a path stands for, and its format: the file itself if it exists, else
one with the ending of a format added. -/
def locate (files : FileAccess m) (path : String) : m (Option (String × Format)) := do
  if ← files.isFile path then
    return ((Path.extension? path).bind Format.ofEnding?).map fun format => (path, format)
  findEnding files path Format.all

/-- The layer of a settings file, if it can be read. -/
def ofPath? (files : FileAccess m) (path : String) : ExceptT Error m (Option Layer) := do
  match ← (locate files path : m (Option (String × Format))) with
  | none => return none
  | some (path, format) =>
    match ← files.read path with
    | .error _ => return none
    | .ok text =>
      match ofText? format text with
      | some layer => return some layer
      | none => throw (.settings (path ++ " is not well formed"))

/-- The layer of a file that may be missing. -/
def ofOptional (files : FileAccess m) (path : String) : ExceptT Error m Layer := do
  return (← ofPath? files path).getD []

/-- The layer of a file that must be there. -/
def ofRequired (files : FileAccess m) (path : String) : ExceptT Error m Layer := do
  match ← ofPath? files path with
  | some layer => return layer
  | none => throw (.settings ("no settings can be read from " ++ path))

/-- The layer of the user's settings. -/
def ofUser (files : FileAccess m) (environment : List (String × String)) :
    ExceptT Error m Layer := do
  match userPath? environment with
  | none => return []
  | some path =>
    if (← (files.place? path : m (Option String))).isNone then return []
    ofOptional files path

end Layer

variable {m : Type → Type} [Monad m]

/-- Loads the settings from all their sources. -/
def loadSettings (files : FileAccess m) (environment : List (String × String))
    (asked : Option String) : ExceptT Error m Settings := do
  let standard ← Layer.standardPaths.mapM (Layer.ofOptional files)
  let user ← Layer.ofUser files environment
  let asked ← asked.toList.mapM (Layer.ofRequired files)
  let layers := standard ++ [user] ++ asked ++ [.ofVariables environment]
  ExceptT.mk (pure (Settings.ofLayers layers))

/-- Loads the settings from the files of a tree. -/
def FileTree.loadSettings (tree : FileTree) (environment : List (String × String))
    (asked : Option String) : Result Settings :=
  Id.run (EntityGraph.loadSettings tree.access environment asked).run

end EntityGraph
