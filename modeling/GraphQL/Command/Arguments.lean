/-! Command lines: what they ask for, or why they are refused. -/
namespace GraphQL.Command

/-- What can be done with files. -/
inductive Action where
  | check
  | stats
  deriving DecidableEq

/-- The words for actions. -/
def Action.ofWord? : String → Option Action
  | "check" => some .check
  | "stats" => some .stats
  | _ => none

/-- The files to act on: paths, and the extensions by which files in directories are chosen. -/
structure Selection where
  paths : List String
  extensions : List String
  deriving DecidableEq

/-- The extensions that count where none are named. -/
def Selection.defaultExtensions : List String := ["graphql", "graphqls"]

/-- A command line that has been understood. -/
structure Invocation where
  action : Option (Action × Selection)
  verbose : Bool
  deriving DecidableEq

/-- Why a command line is not carried out. Two of the reasons are questions about the program. -/
inductive Refusal where
  | help
  | version
  | unknownOption
  | unknownCommand
  /-- A switch that is given twice. -/
  | repeatedSwitch
  /-- An option without its value, or an empty path. -/
  | missingValue
  /-- A switch with a value. -/
  | unwantedValue
  | missingPaths
  deriving DecidableEq

/-- The sorts of words on a command line. -/
inductive Word where
  /-- The mark after which no word is an option. -/
  | terminator
  /-- An option by its long name, perhaps with a value. -/
  | long (name : String) (value : Option String)
  /-- Options by their letters. -/
  | short (letters : List Char)
  | plain (text : String)
  deriving DecidableEq

namespace Word

/-- Cuts a text at the first equals sign. -/
def cutValue (s : List Char) : List Char × Option (List Char) :=
  match s.dropWhile (· != '=') with
  | _ :: value => (s.takeWhile (· != '='), some value)
  | [] => (s, none)

def ofString (s : String) : Word :=
  match s.toList with
  | ['-', '-'] => .terminator
  | '-' :: '-' :: rest =>
    let (name, value) := cutValue rest
    .long (String.ofList name) (value.map String.ofList)
  | '-' :: c :: rest => .short (c :: rest)
  | _ => .plain s

end Word

/-- Options without a value. -/
inductive Switch where
  | verbose
  | help
  | version
  deriving DecidableEq

/-- The switches by their long names. There is a version only of the program as a whole. -/
def Switch.ofName? (program : Bool) : String → Option Switch
  | "verbose" => some .verbose
  | "help" => some .help
  | "version" => if program then some .version else none
  | _ => none

/-- The switches by their letters. -/
def Switch.ofLetter? (program : Bool) : Char → Option Switch
  | 'v' => some .verbose
  | 'h' => some .help
  | 'V' => if program then some .version else none
  | _ => none

/-- Turns a switch, where verbosity may have been asked for before. -/
def Switch.turn (verbose : Bool) : Switch → Except Refusal Bool
  | .verbose => if verbose then .error .repeatedSwitch else .ok true
  | .help => .error .help
  | .version => .error .version

/-- What has been read behind the word for an action. -/
structure Reading where
  verbose : Bool
  extensions : Option (List String)
  paths : List String
  /-- Whether the value of the last option is still to come. -/
  awaiting : Bool

namespace Reading

/-- Nothing has been read. -/
def empty : Reading := ⟨false, none, [], false⟩

/-- Nothing is left open: no value is awaited and no path is empty. -/
def settle (r : Reading) : Except Refusal Unit :=
  if r.awaiting || r.paths.contains "" then .error .missingValue else .ok ()

/-- Adds extensions, which commas separate. -/
def addExtensions (r : Reading) (value : String) : Reading :=
  { r with
    extensions := some (r.extensions.getD [] ++ (value.splitToList (· == ',')))
    awaiting := false }

def turn (r : Reading) (s : Switch) : Except Refusal Reading := do
  r.settle
  return { r with verbose := ← s.turn r.verbose }

/-- Turns switches by their letters. -/
def turnLetters (r : Reading) : List Char → Except Refusal Reading
  | [] => .ok r
  | c :: cs =>
    match Switch.ofLetter? false c with
    | none => .error .unknownOption
    | some s => do (← r.turn s).turnLetters cs

/-- Reads an option by its long name. -/
def long (r : Reading) (name : String) (value : Option String) : Except Refusal Reading :=
  if name = "graphql-file-exts" then do
    r.settle
    match value with
    | some v => return r.addExtensions v
    | none => return { r with awaiting := true }
  else
    match Switch.ofName? false name, value with
    | none, _ => .error .unknownOption
    | some _, some _ => .error .unwantedValue
    | some s, none => r.turn s

/-- Reads the words behind the word for an action. -/
def words (r : Reading) : List String → Except Refusal Reading
  | [] => do
    r.settle
    if r.paths.isEmpty then .error .missingPaths else .ok r
  | a :: rest =>
    match Word.ofString a with
    | .terminator => { r with paths := r.paths ++ rest }.words []
    | .long name value => do (← r.long name value).words rest
    | .short letters => do (← r.turnLetters letters).words rest
    | .plain text =>
      if r.awaiting then (r.addExtensions text).words rest
      else { r with paths := r.paths ++ [text] }.words rest
termination_by as => as.length

def selection (r : Reading) : Selection :=
  ⟨r.paths, r.extensions.getD Selection.defaultExtensions⟩

end Reading

namespace Invocation

/-- The words that stand for commands: those for actions, and the one that asks for help. -/
def isCommand (s : String) : Bool := (Action.ofWord? s).isSome || s == "help"

/-- Why a question for help is refused: mostly to be answered, but not about unknown commands. -/
def helpOn : List String → Refusal
  | [] => .help
  | [topic] => if isCommand topic then .help else .unknownCommand
  | _ => .unknownCommand

/-- Turns switches of the program by their letters. -/
def turnLetters (verbose : Bool) : List Char → Except Refusal Bool
  | [] => .ok verbose
  | c :: cs =>
    match Switch.ofLetter? true c with
    | none => .error .unknownOption
    | some s => do turnLetters (← s.turn verbose) cs

/-- Reads a command line, where verbosity may have been asked for before. -/
def read (verbose : Bool) : List String → Except Refusal Invocation
  | [] => .ok ⟨none, verbose⟩
  | a :: rest =>
    match Action.ofWord? a with
    | some action => do
      let r ← Reading.empty.words rest
      return ⟨some (action, r.selection), verbose || r.verbose⟩
    | none =>
      if a = "help" then .error (helpOn rest)
      else
        match Word.ofString a with
        | .terminator =>
          match rest with
          | [] => .ok ⟨none, verbose⟩
          | b :: _ => .error (if isCommand b then .unknownOption else .unknownCommand)
        | .long name value =>
          match Switch.ofName? true name, value with
          | none, _ => .error .unknownOption
          | some _, some _ => .error .unwantedValue
          | some s, none => do read (← s.turn verbose) rest
        | .short letters => do read (← turnLetters verbose letters) rest
        | .plain _ => .error .unknownCommand

def ofArguments (arguments : List String) : Except Refusal Invocation := read false arguments

end Invocation
end GraphQL.Command
