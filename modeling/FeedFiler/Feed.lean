import FeedFiler.Address
import FeedFiler.Config.Feed
import FeedFiler.Envelope
import FeedFiler.Feed.JourneyTimes
import FeedFiler.Feed.Markup

/-!
# Feeds

A feed reads payloads and packs their records into envelopes for its address.
-/

namespace FeedFiler

/-- How payloads become records. -/
inductive FeedParser where
  | markup (p : MarkupParser)
  | journeyTimes

namespace FeedParser

/-- The type of feed that is read in this way. -/
def kind : FeedParser → FeedKind
  | .markup _ => .markup
  | .journeyTimes => .journeyTimes

/-- The records of a payload. -/
def parse (p : FeedParser) (payload : ByteArray) : Except Markup.Fault (List Record) :=
  match p with
  | .markup p => p.parse payload
  | .journeyTimes => .ok (JourneyTimes.parse payload)

end FeedParser

/-- The markup parser of a feed; nothing but its record tag is checked. -/
def MarkupParser.ofEntry (name : String) (e : FeedEntry) : Except ConfigError MarkupParser :=
  match e.tagRecord with
  | none => .error (.missingField .feed name "tag_record")
  | some tag =>
    if tag.isEmpty then .error (.missingField .feed name "tag_record")
    else .ok { tagRecord := tag, mappings := e.tagMap }

/-- A feed that is ready to read payloads. -/
structure Feed where
  name : String
  address : Address
  moduleName : String
  moduleId : String
  parser : FeedParser

namespace Feed

/-- The feed of an entry, or what is wrong with the entry. -/
def ofEntry (name : String) (e : FeedEntry) : Except ConfigError Feed := do
  let parser ← match ← e.kind name with
    | .markup => (MarkupParser.ofEntry name e).map FeedParser.markup
    | .journeyTimes => .ok .journeyTimes
  return { name, address := ⟨e.address⟩, moduleName := e.moduleName, moduleId := e.moduleId, parser }

/-- The stamp of an envelope that is made at an instant: seconds and three decimals. -/
def stampOf (now : Instant) : String :=
  String.ofList (intChars now.seconds ++ '.' :: paddedChars 3 (now.nanos / 1000000))

/-- Packs some records. Besides its header the envelope says when it was made, in whole seconds, and
for which feed. -/
def pack (f : Feed) (now : Instant) (records : List Record) : Envelope :=
  let e : Envelope :=
    { moduleName := f.moduleName, moduleId := f.moduleId, stamp := some (stampOf now), records }
  (e.withField "ts" (Json.ofInt64 (Int64.ofInt now.seconds))).withField "feed_id" (.string f.name)

/-- The envelope of a payload that arrives at an instant. -/
def ingest (f : Feed) (now : Instant) (payload : ByteArray) : Except Markup.Fault Envelope :=
  (f.parser.parse payload).map (f.pack now)

end Feed

end FeedFiler
