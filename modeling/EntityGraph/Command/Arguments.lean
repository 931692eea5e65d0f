import EntityGraph.Text.Basic

/-!
# Arguments of the command

The words after the name of the command, read from left to right. Everything after two dashes is
positional, and so is a dash alone; a value of an option never begins with a dash, unless it is
attached to the option. The first word that is out of place decides.
-/
namespace EntityGraph.Command

/-- What the command is asked to do. -/
structure Request where
  /-- A schema document or a directory of documents. -/
  schema : String
  /-- A settings file. -/
  config : Option String
  /-- Roots in place of those of the settings. -/
  roots : List String
  /-- Where the graph is written, if not to the output. -/
  target : Option String
  /-- Whether warnings are failures. -/
  strict : Bool
  /-- The fingerprint that the graph must have. -/
  fingerprint : Option String
  deriving DecidableEq, Repr, Inhabited

/-- An option with a value. -/
inductive Key where
  | config
  | root
  | output
  | expectFingerprint
  deriving DecidableEq, Repr, Inhabited

namespace Key

def name : Key → String
  | config => "config"
  | root => "root"
  | output => "output"
  | expectFingerprint => "expect-fingerprint"

def letter? : Key → Option Char
  | config => some 'c'
  | root => some 'r'
  | output => some 'o'
  | expectFingerprint => none

def all : List Key := [config, root, output, expectFingerprint]

def ofName? (name : String) : Option Key := all.find? (·.name == name)

def ofLetter? (letter : Char) : Option Key := all.find? (·.letter? == some letter)

/-- Whether the value is a path, which cannot be empty. -/
def isPath (key : Key) : Bool := key == config || key == output

end Key

/-- Why arguments are not understood. -/
inductive Misuse where
  | unknown (argument : String)
  | missingValue (option : String)
  | unwantedValue (option : String)
  | repeated (option : String)
  | missingSchema
  deriving DecidableEq, Repr, Inhabited

def Misuse.message : Misuse → String
  | unknown argument => "unexpected argument '" ++ argument ++ "' found"
  | missingValue option => "a value is required for '" ++ option ++ "' but none was supplied"
  | unwantedValue option => "unexpected value for '" ++ option ++ "' found; no more were expected"
  | repeated option => "the argument '" ++ option ++ "' cannot be used multiple times"
  | missingSchema => "the following required arguments were not provided:\n  <SCHEMA>"

/-- What ends the reading of arguments early. -/
inductive Stop where
  | help
  | misuse (reason : Misuse)
  deriving DecidableEq, Repr, Inhabited

/-- The arguments read so far. -/
structure Draft where
  schema : Option String
  config : Option String
  roots : List String
  target : Option String
  strict : Bool
  fingerprint : Option String
  /-- The option whose value comes next. -/
  awaiting : Option Key
  /-- Whether only positional arguments follow. -/
  literal : Bool
  deriving Repr, Inhabited

namespace Draft

def start : Draft := ⟨none, none, [], none, false, none, none, false⟩

/-- Fills a place that holds one value. -/
def fill (option value : String) (place : Option String) : Except Stop (Option String) :=
  if place.isSome then .error (.misuse (.repeated option)) else .ok (some value)

/-- Gives an option its value. -/
def give (draft : Draft) (key : Key) (value : String) : Except Stop Draft := do
  if key.isPath && value.isEmpty then throw (.misuse (.missingValue key.name))
  match key with
  | .config => return { draft with config := ← fill key.name value draft.config }
  | .root => return { draft with roots := draft.roots ++ [value] }
  | .output => return { draft with target := ← fill key.name value draft.target }
  | .expectFingerprint =>
    return { draft with fingerprint := ← fill key.name value draft.fingerprint }

/-- Gives an option the value attached to it, or lets it wait for the next argument. -/
def giveOrAwait (draft : Draft) (key : Key) : Option String → Except Stop Draft
  | some value => draft.give key value
  | none => return { draft with awaiting := some key }

/-- Takes a positional argument. -/
def position (draft : Draft) (argument : String) : Except Stop Draft :=
  if argument.isEmpty then .error (.misuse (.missingValue "<SCHEMA>"))
  else if draft.schema.isSome then .error (.misuse (.unknown argument))
  else .ok { draft with schema := some argument }

/-- Takes the words after two dashes: a name, and a value behind an equals sign. -/
def long (draft : Draft) (argument name : String) (value : Option String) : Except Stop Draft :=
  match Key.ofName? name with
  | some key => draft.giveOrAwait key value
  | none =>
    if name = "strict" ∨ name = "help" then
      if value.isSome then .error (.misuse (.unwantedValue argument))
      else if name = "help" then .error .help
      else if draft.strict then .error (.misuse (.repeated argument))
      else .ok { draft with strict := true }
    else .error (.misuse (.unknown argument))

/-- Takes the characters after one dash: a letter, and a value that may follow an equals sign. -/
def short (draft : Draft) (argument : String) (letter : Char) (rest : List Char) :
    Except Stop Draft :=
  match Key.ofLetter? letter with
  | some key =>
    draft.giveOrAwait key <|
      match rest with
      | [] => none
      | '=' :: value => some (String.ofList value)
      | value => some (String.ofList value)
  | none => .error (if letter = 'h' then .help else .misuse (.unknown argument))

/-- An option must have its value before another option begins. -/
def settled (draft : Draft) : Except Stop Draft :=
  match draft.awaiting with
  | some key => .error (.misuse (.missingValue key.name))
  | none => .ok draft

/-- Takes the next argument. -/
def step (draft : Draft) (argument : String) : Except Stop Draft := do
  if draft.literal then (← draft.settled).position argument
  else
    match argument.toList with
    | ['-', '-'] =>
      let draft ← draft.settled
      return { draft with literal := true }
    | '-' :: '-' :: rest =>
      let rest := String.ofList rest
      match Text.cut? '=' rest with
      | some (name, value) => (← draft.settled).long argument name (some value)
      | none => (← draft.settled).long argument rest none
    | '-' :: letter :: rest => (← draft.settled).short argument letter rest
    | _ =>
      match draft.awaiting with
      | some key => Draft.give { draft with awaiting := none } key argument
      | none => draft.position argument

/-- What the arguments ask for, after the last of them. -/
def request (draft : Draft) : Except Stop Request := do
  let draft ← draft.settled
  match draft.schema with
  | none => throw (.misuse .missingSchema)
  | some schema =>
    return {
      schema
      config := draft.config
      roots := draft.roots
      target := draft.target
      strict := draft.strict
      fingerprint := draft.fingerprint }

end Draft

/-- Reads the arguments of the command. -/
def Request.ofArguments (arguments : List String) : Except Stop Request := do
  (← arguments.foldlM Draft.step .start).request

/-- The shape of a call. -/
def usage : String := "Usage: schema-entities [OPTIONS] <SCHEMA>"

/-- The explanation of the arguments. -/
def help : String :=
  "\n".intercalate [
    "Compile an XSD type graph into a relational entity graph",
    "",
    usage,
    "",
    "Arguments:",
    "  <SCHEMA>  Schema document (JSON) or a directory of documents",
    "",
    "Options:",
    "  -c, --config <CONFIG>              Configuration file (defaults to entities.toml lookup)",
    String.join [
      "  -r, --root <ROOTS>                 ",
      "Root type path; repeatable, overrides the configured roots"],
    "  -o, --output <OUTPUT>              Write the entity graph here instead of stdout",
    "      --strict                       Fail when any warning was reported",
    "      --expect-fingerprint <SHA256>  Fail unless the output matches this fingerprint",
    "  -h, --help                         Print help",
    ""]

end EntityGraph.Command
