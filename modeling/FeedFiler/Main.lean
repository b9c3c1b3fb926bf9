import FeedFiler.Run.Command
import FeedFiler.Run.Ingest
import Std.Time.DateTime

/-!
# The command line

Reads the configuration and the input files, lets the filers prepare their requests, and carries the
requests out on the disk.
-/

namespace FeedFiler.Main

/-- The result of an action, or the text of its failure. -/
def attempt {α : Type} (action : IO α) : IO (Except String α) := do
  try return .ok (← action)
  catch e => return .error (toString e)

/-- The time of the clock. -/
def now : IO Instant := do
  let t ← Std.Time.Timestamp.now
  return ⟨t.toSecondsSinceUnixEpoch.val, t.val.nano.val.toNat⟩

/-- Keeps the last version of a file beside it. -/
def rotate (path : String) : IO Unit := do
  let _ ← attempt (IO.FS.removeFile (prevPath path))
  let _ ← attempt (IO.FS.rename path (prevPath path))

/-- Writes a line at the end of a file. -/
def appendLine (path line : String) : IO Unit := do
  let handle ← IO.FS.Handle.mk path .append
  handle.putStr (line ++ "\n")

/-- Carries out a request. -/
def carryOut (mode : StoreMode) (r : WriteRequest) : IO Unit := do
  unless r.dir.isEmpty do IO.FS.createDirAll r.dir
  match mode with
  | .overwrite =>
    rotate r.path
    IO.FS.writeFile r.path r.content
  | .append => appendLine r.path r.content

/-- Stores a message through a filer. -/
def store (f : Filer) (message : Document) : IO Filer := do
  let (requests, f) := f.prepare message
  requests.foldlM (fun f r => do
    match ← attempt (carryOut f.rule.mode r) with
    | .ok () => return f.account true
    | .error cause =>
      IO.eprintln ("record write failed: " ++ r.path ++ ": " ++ cause)
      return f.account false) f

/-- The configuration of a file. -/
def load (path : String) : IO (Except RunError Config) := do
  match ← attempt (IO.FS.readFile path) with
  | .ok text => return (Config.parse text).mapError (.load path)
  | .error cause => return .error (.load path (.unreadable path cause))

/-- Stores the messages of files through the filer of a route. -/
def replay (c : Config) (route : String) (paths : List String) : IO (Except RunError Unit) := do
  match Replay.filerOf c route with
  | .error cause => return .error cause
  | .ok f =>
    let mut f := f
    for path in paths do
      match ← attempt (IO.FS.readFile path) with
      | .error cause => return .error (.unreadable path cause)
      | .ok text =>
        for message in Replay.messagesOf text do
          f ← store f message
    return .ok ()

/-- Stores the envelopes of payload files through the filers of their address. -/
def ingest (c : Config) (name : String) (paths : List String) : IO (Except RunError Unit) := do
  match Ingest.feedOf c name with
  | .error cause => return .error cause
  | .ok feed =>
    let mut filers := c.filers.filter fun f => f.rule.source = feed.address
    for path in paths do
      match ← attempt (IO.FS.readBinFile path) with
      | .error cause => return .error (.unreadable path cause)
      | .ok payload =>
        match feed.ingest (← now) payload with
        | .error cause => return .error (.payload path cause)
        | .ok e => filers ← filers.mapM fun f => store f e.toDocument
    return .ok ()

/-- Runs a command. -/
def run (command : Command) : IO (Except RunError Unit) := do
  match ← load command.config with
  | .error cause => return .error cause
  | .ok c =>
    let name := command.name.getD ""
    match command.kind with
    | .ingest => ingest c name command.files
    | .replay => replay c name command.files

end FeedFiler.Main

/-- Runs the command of the command line and reports its failure with all causes. -/
def main (words : List String) : IO UInt32 := do
  match FeedFiler.Command.parse? words with
  | none =>
    IO.eprintln FeedFiler.Command.usage
    return 2
  | some command =>
    match ← FeedFiler.Main.run command with
    | .ok () => return 0
    | .error cause =>
      IO.eprintln ("Error: " ++ "\nCaused by: ".intercalate cause.chain)
      return 1
