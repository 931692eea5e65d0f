import EntityGraph.Error

/-!
# Access to files

What the reading of schemas and settings asks of a file system. It is stated for any monad, so that
the same program reads a disk and a tree of files that is a value.
-/
namespace EntityGraph

structure FileAccess (m : Type → Type) where
  /-- The text of a file. -/
  read : String → m (Except FileFailure String)
  isFile : String → m Bool
  isDirectory : String → m Bool
  /-- The paths of all files below a directory, or the path itself if it leads to a file. -/
  listing : String → m (List String)
  /-- The place that a path leads to, the same for all paths that lead there. -/
  place? : String → m (Option String)
  /-- No more than this many files can be reached. -/
  limit : Nat

end EntityGraph
