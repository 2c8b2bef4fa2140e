/-! File trees: directories with what lies below them, and how paths lead into them. -/
namespace GraphQL.Command

/-- A file with its bytes, or a directory with its entries in the order of their names. -/
inductive FileTree where
  | file (bytes : ByteArray)
  | directory (entries : List (String × FileTree))

/-- Why a path leads nowhere, or a file holds no text. -/
inductive FileFault where
  | missing
  | notDirectory
  | longName
  /-- A path with a NUL in it. -/
  | nul
  | notText
  deriving DecidableEq

/-- The wording of a fault. -/
def FileFault.message : FileFault → String
  | .missing => "No such file or directory (os error 2)"
  | .notDirectory => "Not a directory (os error 20)"
  | .longName => "File name too long (os error 36)"
  | .nul => "file name contained an unexpected NUL byte"
  | .notText => "stream did not contain valid UTF-8"

/-- The names on a path from the root. -/
abbrev Route := List String

namespace Route

/-- The extension of a file name: what stands after the last point, unless the point is the first
character. -/
def extensionOf (name : String) : Option String :=
  match name.toList.reverse.span (· != '.') with
  | (_, []) => none
  | (_, [_]) => none
  | (rest, _ :: _ :: _) => some (String.ofList rest.reverse)

/-- The extension of the last name. -/
def extension (r : Route) : Option String := r.getLast?.bind extensionOf

/-- A path as it is written, below a path to the root. -/
def text (root : String) (r : Route) : String := "/".intercalate (root :: r)

end Route

namespace FileTree

/-- A directory without entries. -/
def empty : FileTree := directory []

/-- The entries of a directory. -/
def entries : FileTree → List (String × FileTree)
  | file _ => []
  | directory es => es

/-- Puts an entry in its place, or changes the one that is there. -/
def putEntry (name : String) (change : Option FileTree → FileTree) :
    List (String × FileTree) → List (String × FileTree)
  | [] => [(name, change none)]
  | (m, t) :: es =>
    if name = m then (m, change (some t)) :: es
    else if name < m then (name, change none) :: (m, t) :: es
    else (m, t) :: putEntry name change es

/-- Puts something at the end of a route. Directories on the way come into being; a directory stays
where another one is put. -/
def put (new : FileTree) : Route → FileTree → FileTree
  | [], old =>
    match new, old with
    | directory [], directory es => directory es
    | new, _ => new
  | name :: route, old =>
    directory (putEntry name (fun t => put new route (t.getD empty)) old.entries)

/-- The names in a path. -/
def route (path : String) : Route :=
  (path.splitToList (· == '/')).filter fun name => name != "" && name != "."

/-- The tree of some files and directories, given by their paths. -/
def ofEntries (es : List (String × FileTree)) : FileTree :=
  es.foldl (fun tree (path, t) => put t (route path) tree) empty

mutual

/-- The files at and below a route, in order. -/
def files (route : Route) : FileTree → List (Route × ByteArray)
  | file bytes => [(route, bytes)]
  | directory es => filesIn route es

/-- The files in the entries of a directory, in order. -/
def filesIn (route : Route) : List (String × FileTree) → List (Route × ByteArray)
  | [] => []
  | (name, t) :: es => t.files (route ++ [name]) ++ filesIn route es

end

/-- A place that a path has led to: the names and what they name, the newest first. -/
abbrev Trail := List (String × FileTree)

/-- What a trail has led to. -/
def here (root : FileTree) : Trail → FileTree
  | [] => root
  | (_, t) :: _ => t

/-- The longest name a file can have, in bytes. -/
def nameLimit : Nat := 255

/-- The longest path that is followed, in bytes. -/
def pathLimit : Nat := 4095

/-- Follows one more name. Nothing above the root is known. -/
def step (root : FileTree) (trail : Trail) (name : String) : Except FileFault Trail :=
  match here root trail with
  | file _ => .error .notDirectory
  | directory es =>
    if name = "" ∨ name = "." then .ok trail
    else if name = ".." then
      match trail with
      | [] => .error .missing
      | _ :: trail => .ok trail
    else if nameLimit < name.utf8ByteSize then .error .longName
    else
      match es.lookup name with
      | none => .error .missing
      | some t => .ok ((name, t) :: trail)

/-- Follows a path from the root. Paths from anywhere else lead nowhere. -/
def locate (root : FileTree) (path : String) : Except FileFault (Route × FileTree) :=
  if path.toList.contains '\x00' then .error .nul
  else if pathLimit < path.utf8ByteSize then .error .longName
  else if path.startsWith "/" then .error .missing
  else do
    let trail ← (path.splitToList (· == '/')).foldlM (step root) []
    return ((trail.map Prod.fst).reverse, here root trail)

end FileTree
end GraphQL.Command
