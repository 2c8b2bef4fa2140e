import GraphQL.Command.Arguments
import GraphQL.Command.FileTree
import GraphQL.Parser
import GraphQL.Text.Escaped

/-! Input: the files that a selection finds, and the documents in them. -/
namespace GraphQL.Command

/-- Where a program runs: the working directory and the path to it. -/
structure Workplace where
  path : String
  tree : FileTree

/-- The files found, and how many others there were. -/
structure Findings where
  files : List (Route × ByteArray)
  others : Nat

/-- A path that could not be searched. -/
structure SearchFault where
  path : String
  fault : FileFault

/-- The wording of a failed search. -/
def SearchFault.message (f : SearchFault) : String :=
  s!"Failed to scan files at or under {Text.quote f.path}: " ++
    s!"IO error for operation on {f.path}: {f.fault.message}: {f.fault.message}"

namespace Selection

/-- Whether an extension is among those selected, which may be written with a point in front. -/
def accepts (s : Selection) (extension : Option String) : Bool :=
  match extension with
  | none => false
  | some e => s.extensions.any fun x => x == e || x == "." ++ e

/-- Adds the files at and below a path to what has been found. -/
def search (s : Selection) (root : FileTree) (found : Findings) (path : String) :
    Except SearchFault Findings :=
  match root.locate path with
  | .error fault => .error ⟨path, fault⟩
  | .ok (route, tree) =>
    let (files, others) := (tree.files route).partition fun f => s.accepts f.1.extension
    .ok ⟨found.files ++ files, found.others + others.length⟩

/-- Finds the files selected. A single path to a file is good whatever the extension. -/
def find (s : Selection) (root : FileTree) : Except SearchFault Findings := do
  let found ← s.paths.foldlM (s.search root) ⟨[], 0⟩
  match found.files, s.paths with
  | [], [path] =>
    match root.locate path with
    | .ok (route, .file bytes) => return ⟨[(route, bytes)], 0⟩
    | _ => return found
  | _, _ => return found

end Selection

/-- Why a file gives no document. -/
inductive LoadFault where
  | unreadable (path : String) (fault : FileFault)
  | violation (error : SyntaxError)

/-- The report of a file that gives no document. -/
def LoadFault.report : LoadFault → Except FormatFault String
  | .unreadable path fault => .ok s!"error: Failed to read {Text.quote path}: {fault.message}"
  | .violation error => error.diagnostic.render

/-- Reads the document in a file. -/
def load (path : String) (bytes : ByteArray) : Except LoadFault Document :=
  match String.fromUTF8? bytes with
  | none => .error (.unreadable path .notText)
  | some content =>
    match (Source.mk content path).parseDocument with
    | .ok d => .ok d
    | .error e => .error (.violation e)

/-- Reads the documents in the files found. -/
def Findings.load (f : Findings) (root : String) : List (Except LoadFault Document) :=
  f.files.map fun (route, bytes) => Command.load (route.text root) bytes

/-- The documents among some results. -/
def documents (loaded : List (Except LoadFault Document)) : List Document :=
  loaded.filterMap (·.toOption)

/-- What kept the other files from giving documents. -/
def faults (loaded : List (Except LoadFault Document)) : List LoadFault :=
  loaded.filterMap fun
    | .ok _ => none
    | .error e => some e

/-- The reports of the files that gave no document. -/
def faultReports (loaded : List (Except LoadFault Document)) : Except FormatFault (List String) :=
  (faults loaded).mapM LoadFault.report

end GraphQL.Command
