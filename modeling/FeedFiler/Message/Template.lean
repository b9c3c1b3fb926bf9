import FeedFiler.Json.Printer
import FeedFiler.Text.Cut
import FeedFiler.Time.Instant
import FeedFiler.Value

/-!
# Templates

A template is text with placeholders between doubled braces. `expand` fills them from a record, one after
the other.
-/

namespace FeedFiler.Template

/-- What opens a placeholder. -/
def openMark : List Char := ['\x7b', '\x7b']

/-- What closes a placeholder. -/
def closeMark : List Char := ['\x7d', '\x7d']

/-- What a placeholder asks for. -/
inductive Filling where
  /-- A member as text. -/
  | field (key : String)
  /-- A member as a whole number. -/
  | int (key : String)
  | year (key : String)
  | month (key : String)
  | day (key : String)
  /-- Its own text. -/
  | verbatim (text : List Char)
deriving DecidableEq, Repr

/-- The text after the last bar of a text that has one. -/
def afterLastBar (inner : List Char) : List Char :=
  (inner.reverse.takeWhile (· ≠ '|')).reverse

/-- What the text of a placeholder asks for: a key, or a key and a function with a bar between
them. -/
def fillingOf (inner : List Char) : Filling :=
  match Text.cut? ['|'] inner with
  | none => .field (String.ofList inner)
  | some (key, _) =>
    let key := String.ofList key
    let function := afterLastBar inner
    if function = ['i', 'n', 't'] then .int key
    else if function = ['y', 'y', 'y', 'y'] then .year key
    else if function = ['M', 'M'] then .month key
    else if function = ['d', 'd'] then .day key
    else .verbatim inner

/-- A member as text: a string as it is, another value as JSON. -/
def fieldChars : Option Json → List Char
  | some (.string s) => s.toList
  | some value => value.chars
  | none => ['n', 'u', 'l', 'l']

/-- A member as a whole number without its fraction, kept within 64 bits; 0 if it is no number. -/
def intOf : Option Json → Int64
  | some (.number n) => n.toInt64?.getD (truncateToInt64 n.toFloat)
  | _ => 0

/-- The seconds that lie within the calendar. -/
def inCalendar (seconds : Int) : Bool := -8334601228800 ≤ seconds && seconds ≤ 8210266876799

/-- The day of a member in UTC, which stands for the local time: Unix seconds, or a text in RFC 3339. Anything
else is the first day of 1970. -/
def dateOf : Option Json → Date
  | some (.number n) =>
    let seconds := (intOf (some (.number n))).toInt
    Instant.date (if inCalendar seconds then ⟨seconds, 0⟩ else .epoch)
  | some (.string s) => Instant.date ((Instant.parse? s.toList).getD .epoch)
  | _ => Instant.date .epoch

/-- What a placeholder gives for a record. -/
def fill (record : Document) : Filling → List Char
  | .field key => fieldChars (record.get? key)
  | .int key => intChars (intOf (record.get? key)).toInt
  | .year key => Instant.yearChars (dateOf (record.get? key)).year
  | .month key => paddedChars 2 (dateOf (record.get? key)).month
  | .day key => paddedChars 2 (dateOf (record.get? key)).day
  | .verbatim text => text

theorem length_lt_of_cut? {s before after inner rest : List Char}
    (h : Text.cut? openMark s = some (before, after)) (h' : Text.cut? closeMark after = some (inner, rest)) :
    rest.length < s.length := by
  have hopen := Text.length_of_cut? h
  have hclose := Text.length_of_cut? h'
  simp [openMark, closeMark] at hopen hclose
  omega

/-- What is written so far, and behind it the rest of a template with its placeholders filled. A mark that
opens a placeholder and has no closing one behind it is text. -/
def expandFrom (record : Document) (out rest : List Char) : List Char :=
  match h : Text.cut? openMark rest with
  | none => out ++ rest
  | some (before, after) =>
    match h' : Text.cut? closeMark after with
    | none => out ++ rest
    | some (inner, rest') =>
      have := length_lt_of_cut? h h'
      expandFrom record (out ++ before ++ fill record (fillingOf inner)) rest'
termination_by rest.length

/-- The template with its placeholders filled from a record. -/
def expand (template : String) (record : Document) : String :=
  String.ofList (expandFrom record [] template.toList)

end FeedFiler.Template
