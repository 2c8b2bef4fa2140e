import GraphQL.Command

/-! The command line program. The files it can see are named on its standard input, one a line; a
name with a slash at its end is that of a directory. -/
namespace GraphQL.Command

/-- What to say to a refused command line. -/
def Refusal.message : Refusal → String
  | .help => "Usage: graphql [-v] [check | stats] [--graphql-file-exts EXTS] PATHS"
  | .version => "graphql 0.1.0"
  | .unknownOption => "error: unknown option"
  | .unknownCommand => "error: unknown command"
  | .repeatedSwitch => "error: a switch is given twice"
  | .missingValue => "error: a value is missing"
  | .unwantedValue => "error: a switch has no value"
  | .missingPaths => "error: no paths are given"

/-- The exit code for a refused command line. -/
def Refusal.code : Refusal → UInt32
  | .help | .version => 0
  | _ => 2

/-- Reads the files that are named. -/
def readEntry (name : String) : IO (String × FileTree) := do
  if name.endsWith "/" then return (name, .empty)
  else return (name, .file (← IO.FS.readBinFile name))

/-- Reads names up to the end of the input. -/
partial def readNames (input : IO.FS.Stream) (names : List String) : IO (List String) := do
  let line ← input.getLine
  if line.isEmpty then return names.reverse
  else readNames input (line.trimAscii.toString :: names)

/-- The exit code where a report cannot be written. -/
def brokenOff : UInt32 := 101

/-- Carries out an action in the working directory. -/
def runHere (action : Action) (selection : Selection) : IO UInt32 := do
  let names ← readNames (← IO.getStdin) []
  let tree := FileTree.ofEntries (← names.mapM readEntry)
  match action.run selection ⟨toString (← IO.currentDir), tree⟩ with
  | .error fault =>
    IO.eprintln fault.message
    return brokenOff
  | .ok report =>
    if let some text := report.output then IO.println text
    if let some text := report.errors then IO.eprintln text
    return if report.success then 0 else 1

end GraphQL.Command

open GraphQL.Command in
/-- Understands the command line and carries it out. -/
def main (arguments : List String) : IO UInt32 := do
  match Invocation.ofArguments arguments with
  | .ok ⟨some (action, selection), _⟩ => runHere action selection
  | .ok ⟨none, _⟩ =>
    IO.println Refusal.help.message
    return 0
  | .error refusal =>
    if refusal.code = 0 then IO.println refusal.message else IO.eprintln refusal.message
    return refusal.code
