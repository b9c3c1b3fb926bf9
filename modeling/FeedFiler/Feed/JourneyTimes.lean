import FeedFiler.Json.Parser
import FeedFiler.Record
import FeedFiler.Text.Utf8

/-!
# Journey times

A payload that is a JSON array of objects gives one record for each of them. Items that are no
objects, and members that are neither texts nor numbers, are left out.
-/

namespace FeedFiler.JourneyTimes

/-- The records of the items of an array. -/
def recordsOf (items : List Json) : List Record :=
  items.filterMap fun item => item.object?.map fun doc => (Record.ofDocument doc).1

/-- The records of a payload; one that is no JSON array has none. -/
def parse (payload : ByteArray) : List Record :=
  match (Text.decode? payload).bind Json.parse? with
  | some (.array items) => recordsOf items
  | _ => []

end FeedFiler.JourneyTimes
