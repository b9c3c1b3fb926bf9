import Std.Data.ExtTreeMap
import FeedFiler.Text.Cut

/-!
# Trees of files

A tree holds directories and regular files at locations, the lists of names from the root. Paths are
texts that are resolved name by name, from the root or from a current directory. Each operation
either fails without effect or changes the tree in one step.
-/

namespace FeedFiler

/-- The names from the root down. -/
abbrev Location := List String

/-- What stands at a location. -/
inductive FileNode where
  | dir
  | file (content : ByteArray)

/-- It is a directory. -/
def FileNode.isDir : FileNode → Bool
  | .dir => true
  | .file _ => false

/-- Why an operation on files fails. -/
inductive FileError where
  | notFound
  | alreadyExists
  | notDirectory
  | isDirectory
  | notEmpty
  | nameTooLong
  /-- A path that ends in `.` or `..` or is the root cannot be removed or renamed. -/
  | busy
  /-- A directory cannot be moved into itself. -/
  | intoItself
  /-- A path holds a NUL. -/
  | nulInPath
  /-- The content is no UTF-8. -/
  | notText
deriving DecidableEq, Repr

/-- The text of a failure. -/
def FileError.message : FileError → String
  | .notFound => "No such file or directory (os error 2)"
  | .alreadyExists => "File exists (os error 17)"
  | .notDirectory => "Not a directory (os error 20)"
  | .isDirectory => "Is a directory (os error 21)"
  | .notEmpty => "Directory not empty (os error 39)"
  | .nameTooLong => "File name too long (os error 36)"
  | .busy => "Device or resource busy (os error 16)"
  | .intoItself => "Invalid argument (os error 22)"
  | .nulInPath => "file name contained an unexpected NUL byte"
  | .notText => "stream did not contain valid UTF-8"

/-- Directories and files. The root is always a directory. -/
structure FileTree where
  entries : Std.ExtTreeMap Location FileNode := ∅
  /-- Where paths that do not start at the root begin. -/
  current : Location := []

namespace FileTree

/-- What stands at a location. -/
def get? (t : FileTree) (loc : Location) : Option FileNode :=
  if loc.isEmpty then some .dir else t.entries[loc]?

/-- Puts something at a location. -/
def put (t : FileTree) (loc : Location) (node : FileNode) : FileTree :=
  { t with entries := t.entries.insert loc node }

/-- Takes away what stands at a location. -/
def drop (t : FileTree) (loc : Location) : FileTree := { t with entries := t.entries.erase loc }

/-- Something stands below a location. -/
def hasBelow (t : FileTree) (loc : Location) : Bool :=
  t.entries.toList.any fun (l, _) => loc.isPrefixOf l && l != loc

/-! ## Paths -/

/-- The length of a name in bytes that may not be exceeded. -/
def maxName : Nat := 255

/-- The length of a path in bytes that may not be reached. -/
def maxPath : Nat := 4096

/-- The location of a directory that the names lead to. -/
def walk (t : FileTree) : Location → List String → Except FileError Location
  | loc, [] => .ok loc
  | loc, name :: names =>
    if name = "" ∨ name = "." then t.walk loc names
    else if name = ".." then t.walk loc.dropLast names
    else if maxName < name.utf8ByteSize then .error .nameTooLong
    else match t.get? (loc ++ [name]) with
      | none => .error .notFound
      | some (.file _) => .error .notDirectory
      | some .dir => t.walk (loc ++ [name]) names

/-- The place that a path names. -/
inductive Place where
  /-- A directory that exists: the path is the root, or its last name is `.` or `..`. -/
  | known (loc : Location)
  /-- An entry of a directory that exists; `slash` if the path ends in a slash. -/
  | entry (loc : Location) (slash : Bool)
deriving DecidableEq, Repr

/-- The parts of a path between its slashes. -/
def partsOf (path : String) : List String := (Text.splitAt '/' path.toList).map String.ofList

/-- The place of a path. -/
def place (t : FileTree) (path : String) : Except FileError Place := do
  if path.toList.contains '\x00' then throw .nulInPath
  if path.isEmpty then throw .notFound
  if maxPath ≤ path.utf8ByteSize then throw .nameTooLong
  let parts := partsOf path
  let start := if parts.head? = some "" then [] else t.current
  let slashes := parts.reverse.takeWhile (· = "")
  match parts.reverse.dropWhile (· = "") with
  | [] => return .known start
  | last :: before =>
    if last = "." ∨ last = ".." then return .known (← t.walk start parts)
    else
      let parent ← t.walk start before.reverse
      if maxName < last.utf8ByteSize then throw .nameTooLong
      return .entry (parent ++ [last]) (!slashes.isEmpty)

/-- A directory stands at the path. -/
def isDir (t : FileTree) (path : String) : Bool :=
  match t.place path with
  | .error _ => false
  | .ok (.known _) => true
  | .ok (.entry loc _) => (t.get? loc).any FileNode.isDir

/-! ## Operations -/

/-- Makes a directory in a directory that exists. -/
def makeDir (t : FileTree) (path : String) : Except FileError FileTree := do
  match ← t.place path with
  | .known _ => throw .alreadyExists
  | .entry loc _ => if (t.get? loc).isSome then throw .alreadyExists else return t.put loc .dir

/-- Removes a file. -/
def remove (t : FileTree) (path : String) : Except FileError FileTree := do
  match ← t.place path with
  | .known _ => throw .busy
  | .entry loc slash =>
    match t.get? loc with
    | none => throw .notFound
    | some .dir => throw .isDirectory
    | some (.file _) => if slash then throw .notDirectory else return t.drop loc

/-- The tree with everything at and below a location moved to another one. -/
def move (t : FileTree) (source target : Location) : FileTree :=
  let moved (l : Location) := if source.isPrefixOf l then target ++ l.drop source.length else l
  { t with entries := .ofList ((t.drop target).entries.toList.map fun (l, node) => (moved l, node)) }

/-- Renames a file or directory. A file replaces a file; a directory replaces an empty directory. -/
def rename (t : FileTree) (sourcePath targetPath : String) : Except FileError FileTree := do
  match ← t.place sourcePath, ← t.place targetPath with
  | .entry source slash, .entry target slash' =>
    match t.get? source, t.get? target with
    | none, _ => throw .notFound
    | some (.file content), node =>
      if slash || slash' then throw .notDirectory
      else if node.any FileNode.isDir then throw .isDirectory
      else return (t.drop source).put target (.file content)
    | some .dir, node =>
      if source.isPrefixOf target && source != target then throw .intoItself
      else match node with
        | none => return t.move source target
        | some (.file _) => throw .notDirectory
        | some .dir =>
          if source = target then return t
          else if t.hasBelow target then throw .notEmpty
          else return t.move source target
  | _, _ => throw .busy

/-- Writes a file, new or in place of the old content; `edit` makes the content from the old
one. -/
def change (t : FileTree) (path : String) (edit : ByteArray → ByteArray) :
    Except FileError FileTree := do
  match ← t.place path with
  | .known _ => throw .isDirectory
  | .entry loc slash =>
    if slash then throw .isDirectory
    else match t.get? loc with
      | some .dir => throw .isDirectory
      | some (.file content) => return t.put loc (.file (edit content))
      | none => return t.put loc (.file (edit .empty))

/-- Replaces the content of a file. -/
def write (t : FileTree) (path : String) (content : ByteArray) : Except FileError FileTree :=
  t.change path fun _ => content

/-- Adds to the end of a file. -/
def append (t : FileTree) (path : String) (content : ByteArray) : Except FileError FileTree :=
  t.change path (· ++ content)

/-- The content of a file. -/
def read (t : FileTree) (path : String) : Except FileError ByteArray := do
  match ← t.place path with
  | .known _ => throw .isDirectory
  | .entry loc slash =>
    match t.get? loc with
    | none => throw .notFound
    | some .dir => throw .isDirectory
    | some (.file content) => if slash then throw .notDirectory else return content

/-- The content of a file that holds text. -/
def readText (t : FileTree) (path : String) : Except FileError String := do
  match String.fromUTF8? (← t.read path) with
  | some text => return text
  | none => throw .notText

/-! ## Directories with their parents -/

/-- The parts of a path that name something, the last one first. A point counts only in front. -/
def namesReversed (path : String) : List String :=
  match partsOf path with
  | [] => []
  | first :: rest =>
    let names := rest.filter fun part => part ≠ "" ∧ part ≠ "."
    (if first = "" then names else first :: names).reverse

/-- The paths of the directories above a path, the nearest one first, without the root and the
current directory. -/
def parents (path : String) : List String :=
  let front := if path.toList.head? = some '/' then "/" else ""
  (above (namesReversed path).tail).map fun names => front ++ "/".intercalate names.reverse
where
  /-- All ends of a list but the empty one. -/
  above : List String → List (List String)
    | [] => []
    | name :: names => (name :: names) :: above names

/-- Makes the first of some directories, and the ones after it as far as it needs them. A directory
that exists is as good as a new one. What was made stays when a later one fails. -/
def makeChain (t : FileTree) : List String → FileTree × Except FileError Unit
  | [] => (t, .ok ())
  | path :: above =>
    let settle (t : FileTree) : FileTree × Except FileError Unit :=
      match t.makeDir path with
      | .ok t => (t, .ok ())
      | .error e => (t, if t.isDir path then .ok () else .error e)
    match t.makeDir path with
    | .error .notFound =>
      match t.makeChain above with
      | (t, .ok ()) => settle t
      | (t, .error e) => (t, .error e)
    | _ => settle t

/-- Makes a directory and those above it. The empty path needs none. -/
def makeDirs (t : FileTree) (path : String) : FileTree × Except FileError Unit :=
  if path.isEmpty then (t, .ok ()) else t.makeChain (path :: parents path)

/-! ## Listing -/

/-- Everything below the current directory, by its path from there, in the order of the paths. -/
def listing (t : FileTree) : List (String × FileNode) :=
  let below := t.entries.toList.filterMap fun (l, node) =>
    if t.current.isPrefixOf l && l != t.current then
      some ("/".intercalate (l.drop t.current.length), node)
    else none
  below.mergeSort fun a b => a.1 ≤ b.1

end FileTree

end FeedFiler
