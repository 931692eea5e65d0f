import EntityGraph.Command.Run

/-!
# The program

Runs the command on the disk, with the environment of the process.
-/
namespace EntityGraph

/-- The failure that an error of the system stands for. -/
def FileFailure.ofError (error : IO.Error) : FileFailure :=
  match error with
  | .noFileOrDirectory .. => .notFound
  | .permissionDenied .. => .permissionDenied
  -- the code of a failed call is its number, or that number below zero
  | .inappropriateType _ code _ =>
    if code = 21 || code = 0 - 21 then .isDirectory else .notDirectory
  | .userError _ => .invalidUnicode
  | error => .other (toString error)

namespace Disk

def read (path : String) : IO (Except FileFailure String) := do
  try return .ok (← IO.FS.readFile path)
  catch error => return .error (.ofError error)

def write (path text : String) : IO (Except FileFailure Unit) := do
  try return .ok (← IO.FS.writeFile path text)
  catch error => return .error (.ofError error)

def isDirectory (path : String) : IO Bool := do
  if path.isEmpty then return false
  ((← IO.currentDir) / path).isDir

def isFile (path : String) : IO Bool := do
  if path.isEmpty then return false
  let place := (← IO.currentDir) / path
  return (← place.pathExists) && !(← place.isDir)

/-- The files below a directory, or the file itself. -/
partial def listing (path : String) : IO (List String) := do
  if ← isDirectory path then
    try
      let entries ← ((← IO.currentDir) / path).readDir
      return (← entries.toList.mapM fun entry => listing (Path.join path entry.fileName)).flatten
    catch _ => return []
  else if ← isFile path then return [path]
  else return []

def place? (path : String) : IO (Option String) := do
  try return some (← IO.FS.realPath path).toString
  catch _ => return none

def access : FileAccess IO :=
  { read, isFile, isDirectory, listing, place?, limit := Decimal.maxWord }

end Disk

/-- The variables of the process, as the system lists them. -/
def processVariables : IO (List (String × String)) := do
  match ← Disk.read "/proc/self/environ" with
  | .ok text => return (Text.split '\x00' text).filterMap (Text.cut? '=')
  | .error _ => return []

namespace Command

/-- Runs the command on the disk. -/
def runOnDisk (arguments : List String) : IO Outcome := do
  match Request.ofArguments arguments with
  | .error stop => return .stopped stop
  | .ok request =>
    match ← (graphOf Disk.access (← processVariables) request).run with
    | .error failure => return .failed failure "" ""
    | .ok graph =>
      match request.target with
      | none => return conclude request graph
      | some path =>
        match ← Disk.write path graph.text with
        | .error failure => return .failed (.writing path failure) "" ""
        | .ok () => return conclude request graph

end Command

end EntityGraph

open EntityGraph in
def main (arguments : List String) : IO UInt32 := do
  let outcome ← Command.runOnDisk arguments
  IO.print outcome.output
  IO.eprint outcome.messages
  return outcome.exitCode.toUInt32
