import FeedFiler.Bus
import FeedFiler.Feed.Markup

/-!
# Failed runs

Why a run ends early. Its account is a chain of messages, each one the cause of the one before.
-/

namespace FeedFiler

/-- The messages of a fault of the configuration and its cause. -/
def ConfigError.chain : ConfigError → List String
  | .unreadable path cause => [(ConfigError.unreadable path cause).message, cause]
  | e => [e.message]

/-- The messages of a fault of a route and its cause. -/
def FilerError.chain : FilerError → List String
  | .entry cause => cause.chain
  | .rule route cause => [(FilerError.rule route cause).message, cause.message]

/-- Why a run ends early. -/
inductive RunError where
  /-- The configuration cannot be loaded. -/
  | load (path : String) (cause : ConfigError)
  /-- The configuration has no such feed or route that can be read. -/
  | lookup (cause : ConfigError)
  | route (name : String) (cause : FilerError)
  | feed (name : String) (cause : ConfigError)
  | bus (cause : Bus.StartError)
  /-- An input file cannot be read. -/
  | unreadable (path : String) (cause : String)
  /-- A payload cannot be scanned. -/
  | payload (path : String) (cause : Markup.Fault)

/-- The messages of a failure and its causes, the outermost first. -/
def RunError.chain : RunError → List String
  | .load path cause => ("failed to load config " ++ path) :: cause.chain
  | .lookup cause => cause.chain
  | .route name cause => ("route '" ++ name ++ "' cannot be used") :: cause.chain
  | .feed name cause => ("feed '" ++ name ++ "' cannot be used") :: cause.chain
  | .bus cause => ["failed to start bus", cause.message]
  | .unreadable path cause => ["failed to read " ++ path, cause]
  | .payload path _ => ["failed to scan " ++ path]

end FeedFiler
