/-!
# The error log

An error log writes a line at most once in an interval. Errors that come sooner are held back and
covered by the next line.
-/

namespace FeedFiler

/-- An error log, with times in nanoseconds. -/
structure ErrorLog where
  label : String
  /-- The least time between two lines. -/
  interval : Nat
  /-- When the last line was written. -/
  last : Option Nat := none
  /-- The errors that no line covers yet. -/
  pending : Nat := 0
  /-- All errors. -/
  total : Nat := 0
deriving DecidableEq, Repr

namespace ErrorLog

/-- Ten seconds. -/
def defaultInterval : Nat := 10000000000

/-- At this time a line may be written. -/
def due (log : ErrorLog) (now : Nat) : Bool :=
  match log.last with
  | none => true
  | some last => log.interval ≤ now - last

/-- An error at some time; whether it writes a line. -/
def record (log : ErrorLog) (now : Nat) : Bool × ErrorLog :=
  if log.due now then (true, { log with last := some now, pending := 0, total := log.total + 1 })
  else (false, { log with pending := log.pending + 1, total := log.total + 1 })

/-! ## Lines -/

/-- An error as it reaches a log. -/
structure Failure where
  message : String
  cause : String
  time : Nat
deriving DecidableEq, Repr

/-- A line of an error log. -/
structure Line where
  label : String
  text : String
  cause : String
  /-- How many errors were held back before it, if there are any. -/
  suppressed : Option Nat
  /-- How many errors there were up to it. -/
  total : Nat
deriving DecidableEq, Repr

/-- The line for the last of some errors that no line covers yet. -/
def Line.covering (label message cause : String) (count total : Nat) : Line :=
  if 1 < count then
    { label, text := message ++ " (rate-limited)", cause, suppressed := some (count - 1), total }
  else { label, text := message, cause, suppressed := none, total }

/-- How many errors a line covers: those that were held back and its own. -/
def Line.covered (line : Line) : Nat := line.suppressed.getD 0 + 1

theorem Line.covered_covering (label message cause : String) {count : Nat} (h : 0 < count) (total : Nat) :
    (covering label message cause count total).covered = count := by
  rw [covering]
  split
  · exact Nat.sub_add_cancel h
  · next hcount => exact Nat.le_antisymm h (Nat.le_of_not_lt hcount)

/-- Records an error; the line that it writes, if it writes one. -/
def report (log : ErrorLog) (failure : Failure) : Option Line × ErrorLog :=
  let (written, after) := log.record failure.time
  (if written then
    some (.covering log.label failure.message failure.cause (log.pending + 1) after.total)
  else none, after)

end ErrorLog

end FeedFiler
