import FeedFiler.Config.Route
import FeedFiler.Files.FileTree

/-!
# Storing documents

A store makes the directory that a request asks for and writes the request's file. In the mode that
replaces, the last version of the file is kept beside it, under its name with `.prev` behind it.
-/

namespace FeedFiler

/-- A document that is to be written. -/
structure WriteRequest where
  dir : String
  /-- The name of the file in its directory. -/
  name : String
  content : String
deriving DecidableEq, Repr

/-- The path of a name in a directory. A name that starts at the root stands for itself. -/
def joinPath (dir name : String) : String :=
  if name.toList.head? = some '/' ∨ dir.isEmpty then name
  else if dir.toList.getLast? = some '/' then dir ++ name
  else dir ++ "/" ++ name

/-- The path of the file. -/
def WriteRequest.path (r : WriteRequest) : String := joinPath r.dir r.name

/-- The path of the version before. -/
def prevPath (path : String) : String := path ++ ".prev"

/-- Why a document is not written. -/
inductive StoreError where
  | directory (dir : String) (cause : FileError)
  | file (path : String) (cause : FileError)
deriving DecidableEq, Repr

/-- The text of a failure. -/
def StoreError.message : StoreError → String
  | .directory dir cause => "failed to create directory " ++ dir ++ ": " ++ cause.message
  | .file path cause => "failed to write " ++ path ++ ": " ++ cause.message

namespace FileTree

/-- What is left of the tree when a step may fail. -/
def attempt (t : FileTree) (step : FileTree → Except FileError FileTree) : FileTree :=
  match step t with
  | .ok t => t
  | .error _ => t

/-- Drops the version before and makes the file the version before. Either may be missing. -/
def rotate (t : FileTree) (path : String) : FileTree :=
  (t.attempt fun t => t.remove (prevPath path)).attempt fun t => t.rename path (prevPath path)

/-- Writes the file of a request in a directory that exists. -/
def storeFile (t : FileTree) (mode : StoreMode) (r : WriteRequest) : Except FileError FileTree :=
  match mode with
  | .overwrite => t.write r.path r.content.toUTF8
  | .append => t.append r.path (r.content ++ "\n").toUTF8

/-- Carries out a request; the path of the file that was written. -/
def store (t : FileTree) (mode : StoreMode) (r : WriteRequest) : FileTree × Except StoreError String :=
  match t.makeDirs r.dir with
  | (t, .error cause) => (t, .error (.directory r.dir cause))
  | (t, .ok ()) =>
    let t := match mode with
      | .overwrite => t.rotate r.path
      | .append => t
    match t.storeFile mode r with
    | .ok t => (t, .ok r.path)
    | .error cause => (t, .error (.file r.path cause))

end FileTree

end FeedFiler
