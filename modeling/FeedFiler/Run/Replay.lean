import FeedFiler.Config
import FeedFiler.Json.Parser
import FeedFiler.Run.Error
import FeedFiler.Text.Blank
import FeedFiler.Text.Lines

/-!
# Replaying

A replay stores the messages of some files, one on each line, through the filer of one route. Lines
that are no JSON objects are passed over.
-/

namespace FeedFiler

/-- The configuration of a file. -/
def Config.load (t : FileTree) (path : String) : Except ConfigError Config :=
  match t.readText path with
  | .ok text => Config.parse text
  | .error cause => .error (.unreadable path cause.message)

/-- The filers of all routes that can have one, in the order of their names. -/
def Config.filers (c : Config) : List Filer :=
  c.routes.typed.filterMap fun (name, route) => (Filer.ofEntry name route).toOption

namespace Replay

/-- The message of a line, with blanks around it. -/
def messageOf? (line : List Char) : Option Document :=
  Document.parse? (String.ofList (Text.trim line))

/-- The messages of a text. -/
def messagesOf (text : String) : List Document := (Text.lines text.toList).filterMap messageOf?

/-- Stores messages one after the other; how many of their documents were written. -/
def storeMessages : List Document → Filer → FileTree → Nat × Filer × FileTree
  | [], f, t => (0, f, t)
  | message :: messages, f, t =>
    let (count, f, t) := f.store t message
    let (counts, f, t) := storeMessages messages f t
    (count + counts, f, t)

/-- Stores the messages of a text. -/
def text (f : Filer) (t : FileTree) (content : String) : Nat × Filer × FileTree :=
  storeMessages (messagesOf content) f t

/-- Stores the messages of a file. One that cannot be read stores nothing. -/
def file (f : Filer) (t : FileTree) (path : String) : Except RunError Nat × Filer × FileTree :=
  match t.readText path with
  | .error cause => (.error (.unreadable path cause.message), f, t)
  | .ok content =>
    let (count, f, t) := text f t content
    (.ok count, f, t)

/-- Stores the messages of files one after the other, up to the first that cannot be read. -/
def files : List String → Filer → FileTree → FileTree × Except RunError Filer
  | [], f, t => (t, .ok f)
  | path :: paths, f, t =>
    match file f t path with
    | (.ok _, f, t) => files paths f t
    | (.error cause, _, t) => (t, .error cause)

/-- The filer of a route. -/
def filerOf (c : Config) (route : String) : Except RunError Filer := do
  let entry ← (c.route route).mapError .lookup
  (Filer.ofEntry route entry).mapError (.route route)

/-- Replays files through a route. -/
def run (c : Config) (route : String) (paths : List String) (t : FileTree) :
    FileTree × Except RunError Filer :=
  match filerOf c route with
  | .error cause => (t, .error cause)
  | .ok f => files paths f t

end Replay

end FeedFiler
