import FeedFiler.Number.Reading
import FeedFiler.Text.Reader
import FeedFiler.Time.Calendar

/-!
# Instants

A point in time in Unix seconds and nanoseconds, read from RFC 3339 text with any offset and written
in UTC. A leap second is the second before it with a thousand million nanoseconds more.
-/

namespace FeedFiler

/-- A point in time. -/
structure Instant where
  /-- Seconds since 1970-01-01T00:00:00Z. -/
  seconds : Int
  /-- Nanoseconds within the second; from a billion on, within the leap second after it. -/
  nanos : Nat
deriving DecidableEq, Repr

namespace Instant

open Text (expect)

/-- 1970-01-01T00:00:00Z. -/
def epoch : Instant := ⟨0, 0⟩

/-- The day in UTC. -/
def date (t : Instant) : Date := Date.ofDays (t.seconds / 86400)

/-! ## Reading -/

/-- What follows the mark between date and time: `T` in either case, or a space. -/
def expectTime : List Char → Option (List Char)
  | [] => none
  | x :: rest => if x = 'T' ∨ x = 't' ∨ x = ' ' then some rest else none

/-- The nanoseconds of a fraction, if there is one: a point and at least one digit, of which nine
count. -/
def readNanos (s : List Char) : Option (Nat × List Char) :=
  match s with
  | '.' :: rest =>
    let (digits, rest) := takeDigits rest
    if digits.isEmpty then none else some (nanosOfFraction digits, rest)
  | _ => some (0, s)

/-- The offset from UTC in seconds: `Z` in either case, or a sign, two digits for the hours, a colon
and two digits for the minutes. The sign may also be U+2212. -/
def readOffset (s : List Char) : Option (Int × List Char) :=
  match s with
  | [] => none
  | sign :: rest =>
    if sign = 'Z' ∨ sign = 'z' then some (0, rest)
    else if sign = '+' ∨ sign = '-' ∨ sign = '\u2212' then do
      let (hours, rest) ← readFixed 2 rest
      let rest ← expect ':' rest
      let (minutes, rest) ← readFixed 2 rest
      guard (hours < 24 ∧ minutes < 60)
      let offset : Int := hours * 3600 + minutes * 60
      some (if sign = '+' then offset else -offset, rest)
    else none

/-- The instant that a whole text names, by RFC 3339. The second 60 of any minute is a leap
second. -/
def parse? (s : List Char) : Option Instant := do
  let (year, s) ← readFixed 4 s
  let s ← expect '-' s
  let (month, s) ← readFixed 2 s
  let s ← expect '-' s
  let (day, s) ← readFixed 2 s
  let s ← expectTime s
  let (hour, s) ← readFixed 2 s
  let s ← expect ':' s
  let (minute, s) ← readFixed 2 s
  let s ← expect ':' s
  let (second, s) ← readFixed 2 s
  let (nanos, s) ← readNanos s
  let (offset, s) ← readOffset s
  let date : Date := ⟨year, month, day⟩
  guard (s.isEmpty ∧ date.isValid ∧ hour < 24 ∧ minute < 60 ∧ second ≤ 60)
  let local' : Int := date.toDays * 86400 + hour * 3600 + minute * 60 + min second 59
  some ⟨local' - offset, if second = 60 then nanos + 1000000000 else nanos⟩

/-! ## Writing -/

/-- A year with four digits, or with a sign and at least four if it is not one of 0 to 9999. -/
def yearChars (year : Int) : List Char :=
  if 0 ≤ year ∧ year ≤ 9999 then paddedChars 4 year.toNat
  else (if year < 0 then '-' else '+') :: paddedChars 4 year.natAbs

/-- A fraction of a second: nothing, or three, six or nine digits, as few as keep it. -/
def fractionChars (nanos : Nat) : List Char :=
  if nanos = 0 then []
  else if nanos % 1000000 = 0 then '.' :: paddedChars 3 (nanos / 1000000)
  else if nanos % 1000 = 0 then '.' :: paddedChars 6 (nanos / 1000)
  else '.' :: paddedChars 9 nanos

/-- The instant in UTC. -/
def chars (t : Instant) : List Char :=
  let date := t.date
  let ofDay := (t.seconds % 86400).toNat
  let second := ofDay % 60 + t.nanos / 1000000000
  yearChars date.year ++ '-' :: paddedChars 2 date.month ++ '-' :: paddedChars 2 date.day ++
    'T' :: paddedChars 2 (ofDay / 3600) ++ ':' :: paddedChars 2 (ofDay / 60 % 60) ++
    ':' :: paddedChars 2 second ++ fractionChars (t.nanos % 1000000000) ++ ['Z']

/-- The text of an instant. -/
def render (t : Instant) : String := String.ofList t.chars

end Instant

end FeedFiler
