import FeedFiler.Text.Blank
import FeedFiler.Time.Instant
import FeedFiler.Value

/-!
# Derived fields

A tag mapping gives a record a second field for the text of a tag, under another name and converted.
-/

namespace FeedFiler

/-- What the text of a tag is converted to. -/
inductive TagFormat where
  | string
  | int
  | float
  /-- The instant in UTC. -/
  | utc
  /-- The instant in whole Unix seconds. -/
  | unixSeconds
deriving DecidableEq, Repr

namespace TagFormat

/-- The word that names a format. -/
def word : TagFormat → String
  | .string => "string"
  | .int => "int"
  | .float => "float"
  | .utc => "datetime_iso_to_utc"
  | .unixSeconds => "datetime_iso_to_int_utc_seconds"

/-- The format of a word; a word that names none means text as it is. -/
def ofWord (s : String) : TagFormat :=
  if s = "int" then .int
  else if s = "float" then .float
  else if s = "datetime_iso_to_utc" then .utc
  else if s = "datetime_iso_to_int_utc_seconds" then .unixSeconds
  else .string

/-- The value of a text in a format, if the text fits it. Whole numbers stand for themselves; the
other formats allow blanks around the text. -/
def convert? (format : TagFormat) (text : List Char) : Option Value :=
  match format with
  | .string => some (.text (String.ofList text))
  | .int => (readInt64? text).map .int
  | .float => ((readFloat? (Text.trim text)).filter Float.isFinite).map .float
  | .utc => (Instant.parse? (Text.trim text)).map fun t => .text t.render
  | .unixSeconds => (Instant.parse? (Text.trim text)).map fun t => .int (Int64.ofInt t.seconds)

end TagFormat

/-- The rule for one derived field. -/
structure TagMapping where
  /-- The tag whose text is converted. -/
  source : String
  /-- The name of the derived field. -/
  target : String
  format : TagFormat
deriving DecidableEq, Repr

namespace TagMapping

/-- The value that a text of the source tag gives the derived field. -/
def convert? (mapping : TagMapping) (text : List Char) : Option Value := mapping.format.convert? text

/-- The mapping of a tag: the last one that is given for it. -/
def find? (mappings : List TagMapping) (tag : String) : Option TagMapping :=
  mappings.reverse.find? (·.source == tag)

end TagMapping

end FeedFiler
