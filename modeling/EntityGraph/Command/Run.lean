import EntityGraph.Command.Arguments
import EntityGraph.Compile.Graph
import EntityGraph.Schema.Load
import EntityGraph.Settings.Load
import EntityGraph.Unicode.Lowercase

/-!
# Running the command

A run loads the schema, indexes it, loads the settings, compiles, and hands the graph over: to the
output or to a file. After that it reports the diagnostics and the fingerprint, and last it checks
what the request demands of the graph. The first failure ends the run; what was written before it
stays written.
-/
namespace EntityGraph

/-- The message of an error, followed by that of its cause. -/
def Error.chain (error : Error) : String :=
  match error with
  | .file failure => error.message ++ ": " ++ failure.message
  | _ => error.message

namespace Command

/-- Why a run fails. -/
inductive Failure where
  | loading (path : String) (cause : Error)
  | indexing (cause : Error)
  | configuring (cause : Error)
  | noRoots
  | compiling (cause : Error)
  | writing (path : String) (cause : FileFailure)
  /-- The graph does not have the demanded fingerprint. -/
  | fingerprint (demanded : String)
  | warnings (count : Nat)
  deriving DecidableEq, Repr, Inhabited

def Failure.message : Failure → String
  | loading path cause => "loading schema from " ++ path ++ ": " ++ cause.chain
  | indexing cause => "indexing schema: " ++ cause.chain
  | configuring cause => "loading configuration: " ++ cause.chain
  | noRoots => "no roots given; pass --root or set compiler.roots"
  | compiling cause => cause.chain
  | writing path cause => "writing " ++ path ++ ": " ++ cause.message
  | fingerprint demanded => "entity graph does not match fingerprint " ++ demanded
  | warnings count => toString count ++ " warning(s) reported"

/-- What a run leaves behind, files apart. -/
structure Outcome where
  exitCode : Nat
  output : String
  messages : String
  deriving DecidableEq, Repr, Inhabited

namespace Outcome

/-- A run that fails after it has written something. -/
def failed (failure : Failure) (output messages : String) : Outcome :=
  ⟨1, output, messages ++ "Error: " ++ failure.message ++ "\n"⟩

/-- A run that does not begin. -/
def stopped : Stop → Outcome
  | .help => ⟨0, help, ""⟩
  | .misuse reason =>
    ⟨2, "", String.join
      ["error: ", reason.message, "\n\n", usage, "\n\nFor more information, try '--help'.\n"]⟩

end Outcome

section

variable {m : Type → Type} [Monad m]

/-- Names the part of the work in which an error happened. -/
def during {α : Type} (name : Error → Failure) (work : ExceptT Error m α) :
    ExceptT Failure m α :=
  work.adapt name

/-- The result of work without effects. -/
def pureResult {α : Type} (result : Result α) : ExceptT Error m α := ExceptT.mk (pure result)

/-- Loads the schema of a request: a directory or one document. -/
def loadSchema (files : FileAccess m) (path : String) : ExceptT Error m Schema.Document := do
  if ← (files.isDirectory path : m Bool) then Schema.loadDirectory files path
  else Schema.loadFile files path

/-- The settings that a request works with. -/
def Request.settings (request : Request) (settings : Settings) : Except Failure Settings :=
  let settings := if request.roots.isEmpty then settings else settings.withRoots request.roots
  if settings.compiler.roots.isEmpty then .error .noRoots else .ok settings

/-- Reads everything that a request needs, and compiles. -/
def graphOf (files : FileAccess m) (environment : List (String × String)) (request : Request) :
    ExceptT Failure m Graph := do
  let document ← during (.loading request.schema) (loadSchema files request.schema)
  let index ← during .indexing (pureResult (Schema.Index.build document))
  let loaded ← during .configuring (loadSettings files environment request.config)
  let settings ← ExceptT.mk (pure (request.settings loaded))
  during .compiling (pureResult (compile index settings))

end

/-- What a request demands of the graph. -/
def Request.check (request : Request) (graph : Graph) : Except Failure Unit := do
  match request.fingerprint with
  | some demanded =>
    let demanded : Fingerprint := ⟨Unicode.lowercase demanded⟩
    if !demanded.verify graph.entities then throw (.fingerprint demanded.hex)
  | none => pure ()
  if request.strict && graph.diagnostics.hasWarnings then
    throw (.warnings graph.diagnostics.warningCount)

/-- The report that follows the graph. -/
def report (graph : Graph) : String :=
  (if graph.diagnostics.isEmpty then "" else graph.diagnostics.report ++ "\n")
    ++ "Fingerprint: " ++ graph.fingerprint.hex ++ "\n"

/-- The end of a run, after the graph has been written, to a file if one is asked for. -/
def conclude (request : Request) (graph : Graph) : Outcome :=
  let output := if request.target.isNone then graph.text ++ "\n" else ""
  let written := match request.target with
    | some path => String.join
        ["Wrote ", toString graph.entities.length, " entities to ", path, "\n"]
    | none => ""
  let messages := written ++ report graph
  match request.check graph with
  | .ok () => ⟨0, output, messages⟩
  | .error failure => .failed failure output messages

/-- Runs the command on a tree of files. -/
def runOn (tree : FileTree) (environment : List (String × String)) (arguments : List String) :
    FileTree × Outcome :=
  match Request.ofArguments arguments with
  | .error stop => (tree, .stopped stop)
  | .ok request =>
    match Id.run (graphOf tree.access environment request).run with
    | .error failure => (tree, .failed failure "" "")
    | .ok graph =>
      match request.target with
      | none => (tree, conclude request graph)
      | some path =>
        match tree.write path graph.text with
        | .error failure => (tree, .failed (.writing path failure) "" "")
        | .ok tree => (tree, conclude request graph)

end Command

end EntityGraph
