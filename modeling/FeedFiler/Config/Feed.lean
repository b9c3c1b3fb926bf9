import FeedFiler.Config.Error
import FeedFiler.Feed.TagMapping

/-!
# Feeds in the configuration

A feed has a type, which says how its payloads are read, and an address, where its envelopes go.
-/

namespace FeedFiler

/-- How the payloads of a feed are read. -/
inductive FeedKind where
  /-- Flat markup. -/
  | markup
  /-- A JSON array of journey times. -/
  | journeyTimes
deriving DecidableEq, Repr

namespace FeedKind

/-- The word for a feed type. -/
def word : FeedKind → String
  | .markup => "feed_xml_flat"
  | .journeyTimes => "feed_bt_journey_times"

/-- All feed types, in the order in which a fault lists them. -/
def all : List FeedKind := [.markup, .journeyTimes]

/-- The feed type of a word. -/
def ofWord? (s : String) : Option FeedKind := all.find? (·.word == s)

end FeedKind

/-- A feed as it is configured. -/
structure FeedEntry where
  feedType : String := ""
  address : String := ""
  moduleName : String := ""
  moduleId : String := ""
  /-- The tag of a record in markup. -/
  tagRecord : Option String := none
  tagMap : List TagMapping := []

namespace FeedEntry

open Config (Shape Field Typed readText readWord readList)

/-- The word of a tag format; other words mean text. -/
def readFormat (v : Toml) : Typed TagFormat := (readWord v).map .ofWord

/-- How a tag mapping is read. -/
def mappingShape : Shape TagMapping where
  title := "struct TagMapConfig"
  start := { source := "", target := "", format := .string }
  fields := [
    .of "original_tag" readText (fun m source => { m with source }) [] true,
    .of "new_tag" readText (fun m target => { m with target }) [] true,
    .of "format" readFormat fun m format => { m with format }]

/-- How a feed is read. -/
def shape : Shape FeedEntry where
  title := "struct FeedConfig"
  start := {}
  fields := [
    .of "feed_type" readText fun e feedType => { e with feedType },
    .of "address" readText fun e address => { e with address },
    .of "module_name" readText fun e moduleName => { e with moduleName },
    .of "module_id" readText fun e moduleId => { e with moduleId },
    .of "tag_record" readText fun e tag => { e with tagRecord := some tag },
    .of "tag_map" (readList mappingShape.read) fun e tagMap => { e with tagMap }]

/-- The feed's type, or what is wrong with the feed: its type, its address, or for markup its record
tag is absent. -/
def kind (name : String) (e : FeedEntry) : Except ConfigError FeedKind :=
  if e.feedType.isEmpty then .error (.missingField .feed name "feed_type")
  else match FeedKind.ofWord? e.feedType with
    | none => .error (.invalidValue .feed name "feed_type"
        ("'" ++ e.feedType ++ "' (expected one of: " ++
          ", ".intercalate (FeedKind.all.map FeedKind.word) ++ ")"))
    | some kind =>
      if e.address.isEmpty then .error (.missingField .feed name "address")
      else if kind = .markup ∧ (e.tagRecord.getD "").isEmpty then
        .error (.missingField .feed name "tag_record")
      else .ok kind

/-- Says what is wrong with a feed, if anything. -/
def validate (name : String) (e : FeedEntry) : Except ConfigError Unit := (e.kind name).map fun _ => ()

end FeedEntry

end FeedFiler
