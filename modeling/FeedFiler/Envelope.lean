import FeedFiler.Record
import FeedFiler.Json.Parser

/-!
# Envelopes

An envelope is what one fetch of a feed publishes: who made it and when, the records, and further
members that the producer adds. It has two JSON forms, the document that filers store and the
written form that `ofMembers?` reads back.
-/

namespace FeedFiler

/-- A published message. -/
structure Envelope where
  moduleName : String := ""
  moduleId : String := ""
  /-- When it was made, in Unix seconds with three decimals. -/
  stamp : Option String := none
  records : List Record := []
  extra : Document := []

namespace Envelope

/-- The names that belong to the envelope itself. -/
def headerNames : List String := ["module_name", "module_id", "acp_ts", "request_data"]

/-- Adds a further member. One with a name of the header's is kept but not part of the document. -/
def withField (e : Envelope) (name : String) (value : Json) : Envelope :=
  { e with extra := e.extra.insert name value }

/-- The members that identify the envelope. -/
def header (e : Envelope) : List (String × Json) :=
  [("module_name", .string e.moduleName), ("module_id", .string e.moduleId)] ++
    e.stamp.toList.map fun stamp => ("acp_ts", .string stamp)

/-- The records as a JSON array. -/
def recordsJson (e : Envelope) : Json :=
  .array (e.records.map fun r => .object r.toDocument)

/-- The envelope as a document: its header, the further members that do not take a name of the
header's, and the records. -/
def toDocument (e : Envelope) : Document :=
  let withExtra := e.extra.foldl (fun doc (name, value) =>
    if !Document.contains doc name && name != "request_data" then Document.insert doc name value
    else doc) e.header
  Document.insert withExtra "request_data" e.recordsJson

/-- The envelope as it is written: its header, the records, and all further members as they are. -/
def toMembers (e : Envelope) : List (String × Json) :=
  e.header ++ [("request_data", e.recordsJson)] ++ e.extra

/-- The written text of an envelope. -/
def render (e : Envelope) : String := (Json.object e.toMembers).render

/-- A member that is a string, empty if it is absent. -/
def stringMember? (members : List (String × Json)) (name : String) : Option String :=
  match members.lookup name with
  | none => some ""
  | some value => value.string?

/-- The time stamp: a string, `null`, or absent. -/
def stampMember? (members : List (String × Json)) : Option (Option String) :=
  match members.lookup "acp_ts" with
  | none => some none
  | some .null => some none
  | some value => value.string?.map some

/-- The records: an array of objects with scalar members, or absent. -/
def recordsMember? (members : List (String × Json)) : Option (List Record) :=
  match members.lookup "request_data" with
  | none => some []
  | some value => do
    let items ← value.array?
    items.mapM fun item => item.object?.bind Record.ofMembers?

/-- The envelope that written members give. A name of the header's may occur once. -/
def ofMembers? (members : List (String × Json)) : Option Envelope := do
  guard (headerNames.all fun name => (members.filter (·.1 == name)).length ≤ 1)
  let moduleName ← stringMember? members "module_name"
  let moduleId ← stringMember? members "module_id"
  let stamp ← stampMember? members
  let records ← recordsMember? members
  let extra := Document.settle (members.filter fun (name, _) => !headerNames.contains name)
  some { moduleName, moduleId, stamp, records, extra }

/-- The envelope that a text writes. -/
def parse? (text : String) : Option Envelope := (Json.parseMembers? text).bind ofMembers?

end Envelope

end FeedFiler
