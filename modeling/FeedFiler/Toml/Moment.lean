import FeedFiler.Time.Calendar
import FeedFiler.Number.Reading
import FeedFiler.Text.Reader

/-!
# Dates and times in TOML

A date, a time of day, or both, the latter with or without an offset from UTC. The written form has
no zero at the end of its fraction.
-/

namespace FeedFiler.Toml

open Text (Reader expect)

/-- A time of day. The second may be a leap second. -/
structure TimeOfDay where
  hour : Nat
  minute : Nat
  second : Nat
  nanos : Nat
deriving DecidableEq, Repr

/-- The offset of a local time from UTC. -/
inductive Offset where
  | utc
  | minutes (n : Int)
deriving DecidableEq, Repr

/-- A date, a time of day, or both. -/
inductive Moment where
  | date (d : Date)
  | time (t : TimeOfDay)
  | dateTime (d : Date) (t : TimeOfDay) (offset : Option Offset)
deriving DecidableEq, Repr

/-! ## Reading -/

/-- A date with its hyphens. -/
def readDate : Reader Date := fun s => do
  let (year, s) ← readFixed 4 s
  let s ← expect '-' s
  let (month, s) ← readFixed 2 s
  let s ← expect '-' s
  let (day, s) ← readFixed 2 s
  let date : Date := ⟨year, month, day⟩
  guard date.isValid
  some (date, s)

/-- A fraction of a second, if there is one: a point and at least one digit, of which nine count. -/
def readFraction : Reader Nat
  | '.' :: s =>
    let (digits, s) := takeDigits s
    if digits.isEmpty then none else some (nanosOfFraction digits, s)
  | s => some (0, s)

/-- A time of day with its colons. -/
def readTime : Reader TimeOfDay := fun s => do
  let (hour, s) ← readFixed 2 s
  let s ← expect ':' s
  let (minute, s) ← readFixed 2 s
  let s ← expect ':' s
  let (second, s) ← readFixed 2 s
  let (nanos, s) ← readFraction s
  guard (hour < 24 ∧ minute < 60 ∧ second ≤ 60)
  some (⟨hour, minute, second, nanos⟩, s)

/-- An offset, if there is one: `Z` in either case, or a sign, hours and minutes. -/
def readOffset : Reader (Option Offset)
  | [] => some (none, [])
  | sign :: s =>
    if sign = 'Z' ∨ sign = 'z' then some (some .utc, s)
    else if sign = '+' ∨ sign = '-' then do
      let (hours, s) ← readFixed 2 s
      let s ← expect ':' s
      let (minutes, s) ← readFixed 2 s
      guard (hours < 24 ∧ minutes < 60)
      let offset : Int := hours * 60 + minutes
      some (some (.minutes (if sign = '+' then offset else -offset)), s)
    else some (none, sign :: s)

/-- The time after a date, if there is one: a `T` in either case or a space, and a time. -/
def readTimeAfter : Reader TimeOfDay
  | [] => none
  | mark :: s => if mark = 'T' ∨ mark = 't' ∨ mark = ' ' then readTime s else none

/-- A date, a time, or both. -/
def readMoment : Reader Moment := fun s =>
  match readDate s with
  | none => (readTime s).map fun (time, s) => (.time time, s)
  | some (date, s) =>
    match readTimeAfter s with
    | none => some (.date date, s)
    | some (time, s) => (readOffset s).map fun (offset, s) => (.dateTime date time offset, s)

/-- The moment that a whole text stands for. -/
def Moment.ofText? (text : String) : Option Moment :=
  match readMoment text.toList with
  | some (m, []) => some m
  | _ => none

/-! ## Writing -/

/-- A date. -/
def dateChars (d : Date) : List Char :=
  paddedChars 4 d.year.toNat ++ '-' :: paddedChars 2 d.month ++ '-' :: paddedChars 2 d.day

/-- The list without the zeros at its end. -/
def dropTrailingZeros (digits : List Char) : List Char :=
  (digits.reverse.dropWhile (· = '0')).reverse

/-- A time of day. -/
def TimeOfDay.chars (t : TimeOfDay) : List Char :=
  let fraction := if t.nanos = 0 then [] else '.' :: dropTrailingZeros (paddedChars 9 t.nanos)
  paddedChars 2 t.hour ++ ':' :: paddedChars 2 t.minute ++ ':' :: paddedChars 2 t.second ++ fraction

/-- An offset. -/
def Offset.chars : Offset → List Char
  | .utc => ['Z']
  | .minutes n =>
    (if n < 0 then '-' else '+') :: paddedChars 2 (n.natAbs / 60) ++ ':' :: paddedChars 2 (n.natAbs % 60)

/-- A moment. -/
def Moment.chars : Moment → List Char
  | .date d => dateChars d
  | .time t => t.chars
  | .dateTime d t offset => dateChars d ++ 'T' :: t.chars ++ (offset.map Offset.chars).getD []

example : (readMoment "1979-05-27 07:32:00.500-07:00".toList).map (fun m => String.ofList m.1.chars) =
    some "1979-05-27T07:32:00.5-07:00" := by decide +kernel

end FeedFiler.Toml
