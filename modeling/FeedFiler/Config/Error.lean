import FeedFiler.Config.Typing

/-!
# Faults of a configuration

A fault of the whole file rejects the file; a fault of one feed or route concerns this entry alone.
-/

namespace FeedFiler

/-- A part of the configuration that a fault can name. -/
inductive Component where
  | feed
  | route
  | «section»
deriving DecidableEq, Repr

/-- The word for a part. -/
def Component.word : Component → String
  | .feed => "feed"
  | .route => "route"
  | .«section» => "section"

/-- A fault of a configuration. -/
inductive ConfigError where
  /-- The file cannot be read. -/
  | unreadable (path cause : String)
  /-- The file is no TOML, or one of its settings has the wrong type. -/
  | unparsable
  | notFound (component : Component) (name : String)
  | missingField (component : Component) (name field : String)
  | invalidValue (component : Component) (name field reason : String)
  /-- A table of one feed or route cannot be read. -/
  | malformed (component : Component) (name : String) (cause : Config.Malformation)
  /-- Two options that exclude each other. -/
  | conflict (component : Component) (name first second : String)

namespace ConfigError

/-- The text of a fault. -/
def message : ConfigError → String
  | .unreadable path cause => "failed to read config file '" ++ path ++ "': " ++ cause
  | .unparsable => "failed to parse config"
  | .notFound component name => "no " ++ component.word ++ " named '" ++ name ++ "' in config"
  | .missingField component name field =>
    component.word ++ " '" ++ name ++ "' is missing required field '" ++ field ++ "'"
  | .invalidValue component name field reason =>
    component.word ++ " '" ++ name ++ "' has invalid " ++ field ++ ": " ++ reason
  | .malformed component name cause =>
    component.word ++ " '" ++ name ++ "' is malformed: " ++ cause.message
  | .conflict component name first second =>
    component.word ++ " '" ++ name ++ "' sets both '" ++ first ++ "' and '" ++ second ++ "'"

end ConfigError

end FeedFiler
