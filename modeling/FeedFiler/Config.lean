import Std.Data.ExtTreeMap
import FeedFiler.Config.Feed
import FeedFiler.Config.Route
import FeedFiler.Toml.Parser
import FeedFiler.Toml.Settled

/-!
# The configuration

A configuration has settings of its own and named feeds and routes. A feed or route whose table
cannot be read is kept with its fault, so that the others stay usable.
-/

namespace FeedFiler

/-- The least weight of a message that is logged. -/
inductive LogLevel where
  | trace
  | debug
  | info
  | warn
  | error
deriving DecidableEq, Repr

/-- The word for a log level. -/
def LogLevel.word : LogLevel → String
  | .trace => "trace"
  | .debug => "debug"
  | .info => "info"
  | .warn => "warn"
  | .error => "error"

/-- How a line of the log is written. -/
inductive LogFormat where
  | console
  | json
deriving DecidableEq, Repr

/-- The word for a log format. -/
def LogFormat.word : LogFormat → String
  | .console => "console"
  | .json => "json"

namespace Config

/-- Named tables, each read on its own. -/
abbrev Entries (α : Type) := Std.ExtTreeMap String (Typed α)

namespace Entries

variable {α : Type}

/-- Reads each of some named tables. -/
def read (shape : Shape α) (tables : List (String × Toml)) : Entries α :=
  .ofList (tables.map fun (name, table) => (name, shape.read table))

/-- The entries that could be read. -/
def typed (entries : Entries α) : List (String × α) :=
  entries.toList.filterMap fun (name, entry) => entry.toOption.map fun e => (name, e)

/-- The entries that could not be read, with their faults. -/
def malformed (entries : Entries α) : List (String × Malformation) :=
  entries.toList.filterMap fun (name, entry) =>
    match entry with
    | .ok _ => none
    | .error cause => some (name, cause)

/-- The entry of a name. -/
def find (component : Component) (entries : Entries α) (name : String) : Except ConfigError α :=
  match entries[name]? with
  | none => .error (.notFound component name)
  | some (.error cause) => .error (.malformed component name cause)
  | some (.ok e) => .ok e

/-- The names of the entries that pass a check. -/
def usable (check : String → α → Except ConfigError Unit) (entries : Entries α) : List String :=
  entries.typed.filterMap fun (name, e) => (check name e).toOption.map fun _ => name

/-- The faults of the entries that fail a check, and then those of the unreadable ones. -/
def faults (component : Component) (check : String → α → Except ConfigError Unit)
    (entries : Entries α) : List ConfigError :=
  (entries.typed.filterMap fun (name, e) =>
    match check name e with
    | .ok _ => none
    | .error fault => some fault) ++
  entries.malformed.map fun (name, cause) => .malformed component name cause

end Entries

end Config

/-- A configuration. -/
structure Config where
  level : LogLevel := .info
  format : LogFormat := .console
  /-- How many envelopes wait for each route. -/
  queueSize : Nat := 1000
  feeds : Config.Entries FeedEntry := ∅
  routes : Config.Entries RouteEntry := ∅

namespace Config

/-! ## Reading -/

/-- One of some words. -/
def readChoice {α : Type} (word : α → String) (choices : List α) (v : Toml) : Typed α := do
  let s ← readWord v
  match choices.find? (word · == s) with
  | some choice => .ok choice
  | none => .error .noWord

/-- A number of things. -/
def readCount : Toml → Typed Nat
  | .integer n => if 0 ≤ n then .ok n.toInt.toNat else .error (.wrongType (.integer n) "usize")
  | v => .error (.wrongType v "usize")

/-- How the settings of the log are read. -/
def logShape : Shape Config where
  title := "struct LogConfig"
  start := {}
  fields := [
    .of "level" (readChoice LogLevel.word [.trace, .debug, .info, .warn, .error])
      fun c level => { c with level },
    .of "format" (readChoice LogFormat.word [.console, .json]) fun c format => { c with format }]

/-- How the general settings are read. -/
def globalShape : Shape Config where
  title := "struct GlobalConfig"
  start := {}
  fields := [.of "queue_size" readCount fun c queueSize => { c with queueSize }]

/-- Reads the settings of a section. A moment counts as the table that stands for it, and an array
may have more items than there are settings. -/
def readSection (shape : Shape Config) : Toml → Typed Config
  | .moment m => shape.readEntries m.entries
  | .array items => shape.readFirst items
  | v => shape.read v

/-- The settings of a section; its defaults if it is absent. -/
def sectionOf (shape : Shape Config) (entries : List (String × Toml)) (name : String) :
    Except ConfigError Config :=
  match entries.lookup name with
  | none => .ok shape.start
  | some v => (readSection shape v).mapError fun _ => .unparsable

/-- The settled entries of a section, each by its name. -/
def tablesOf (entries : List (String × Toml)) (name : String) :
    Except ConfigError (List (String × Toml)) :=
  match entries.lookup name with
  | none => .ok []
  | some v =>
    match v.entries?.bind Toml.settleEntries? with
    | none => .error .unparsable
    | some tables => .ok tables

/-- The configuration of the entries of a TOML text. -/
def ofEntries (entries : List (String × Toml)) : Except ConfigError Config := do
  let log ← sectionOf logShape entries "log"
  let general ← sectionOf globalShape entries "global"
  let feeds ← tablesOf entries "feeds"
  let routes ← tablesOf entries "routes"
  if general.queueSize = 0 then
    .error (.invalidValue .«section» "global" "queue_size" "must be greater than 0")
  else
    .ok {
      level := log.level
      format := log.format
      queueSize := general.queueSize
      feeds := .read FeedEntry.shape feeds
      routes := .read RouteEntry.shape routes }

/-- The configuration that a text writes. -/
def parse (text : String) : Except ConfigError Config :=
  match Toml.parse? text with
  | none => .error .unparsable
  | some entries => ofEntries entries

/-! ## Feeds and routes -/

/-- The feed of a name. -/
def feed (c : Config) (name : String) : Except ConfigError FeedEntry := c.feeds.find .feed name

/-- The route of a name. -/
def route (c : Config) (name : String) : Except ConfigError RouteEntry := c.routes.find .route name

/-- The names of the feeds that are sound in themselves. -/
def usableFeeds (c : Config) : List String := c.feeds.usable FeedEntry.validate

/-- The faults of the other feeds. -/
def feedFaults (c : Config) : List ConfigError := c.feeds.faults .feed FeedEntry.validate

/-- The names of the routes that are sound in themselves. -/
def usableRoutes (c : Config) : List String := c.routes.usable RouteEntry.validate

/-- The faults of the other routes. -/
def routeFaults (c : Config) : List ConfigError := c.routes.faults .route RouteEntry.validate

end Config

end FeedFiler
