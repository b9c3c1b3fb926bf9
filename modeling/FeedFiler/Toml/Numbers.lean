import FeedFiler.Number.Reading
import FeedFiler.Text.Reader
import FeedFiler.Toml.Basic

/-!
# Numbers in TOML

Single underscores may stand between digits. Whole numbers have 64 bits and a sign; those in base
sixteen, eight and two have no sign. A decimal has no zero in front.
-/

namespace FeedFiler.Toml

open Text (Reader expectWord)

/-- Further digits of some base; before each of them may stand an underscore. -/
def readMoreDigits (isDigit : Char → Bool) : Reader (List Char)
  | [] => some ([], [])
  | '_' :: c :: rest =>
    if isDigit c then (readMoreDigits isDigit rest).map fun (cs, s) => (c :: cs, s) else none
  | c :: rest =>
    if c = '_' then none
    else if isDigit c then (readMoreDigits isDigit rest).map fun (cs, s) => (c :: cs, s)
    else some ([], c :: rest)

/-- Digits of some base, at least one, with single underscores between them. -/
def readDigits (isDigit : Char → Bool) : Reader (List Char)
  | [] => none
  | c :: rest =>
    if isDigit c then (readMoreDigits isDigit rest).map fun (cs, s) => (c :: cs, s) else none

/-- The digits of a decimal without a fraction: a lone zero, or digits that start with another
one. -/
def readWhole : Reader (List Char)
  | '0' :: rest => some (['0'], rest)
  | s => readDigits Char.isDigit s

/-- A sign, if there is one; whether it is a minus. -/
def readSign : List Char → Bool × List Char
  | '+' :: rest => (false, rest)
  | '-' :: rest => (true, rest)
  | s => (false, s)

/-- An integer, if it has at most 64 bits. -/
def integer? (n : Int) : Option Toml := (int64OfInt? n).map .integer

/-- The digits of a whole number in a base up to sixteen, after the mark of the base. -/
def readBased (base : Nat) (s : List Char) : Option (Toml × List Char) := do
  let value (c : Char) := (hexValue? c).filter (· < base)
  let (digits, s) ← readDigits (fun c => (value c).isSome) s
  let n := digits.foldl (fun n c => n * base + (value c).getD 0) 0
  (integer? n).map fun v => (v, s)

/-- The fraction of a decimal, if it has one: a point and digits. -/
def readFractionDigits : Reader (List Char)
  | '.' :: rest => readDigits Char.isDigit rest
  | s => some ([], s)

/-- The power of ten of a decimal, if it has one. -/
def readPower : Reader (Option Int)
  | [] => some (none, [])
  | mark :: rest =>
    if mark = 'e' ∨ mark = 'E' then do
      let (negative, s) := readSign rest
      let (digits, s) ← readDigits Char.isDigit s
      let power : Int := natOfDigits digits
      some (some (if negative then -power else power), s)
    else some (none, mark :: rest)

/-- A decimal: whole, or a double that does not overflow. -/
def readDecimal (negative : Bool) (s : List Char) : Option (Toml × List Char) := do
  let (whole, s) ← readWhole s
  let (fraction, s) ← readFractionDigits s
  let (power, s) ← readPower s
  let digits := natOfDigits (whole ++ fraction)
  if fraction.isEmpty ∧ power.isNone then
    (integer? (if negative then -digits else digits)).map fun v => (v, s)
  else
    let x := (Decimal.mk digits (power.getD 0 - fraction.length)).toFloat
    if x.isInf ∧ ¬ negative then none else some (.float (if negative then -x else x), s)

/-- A number. -/
def readNumber (s : List Char) : Option (Toml × List Char) :=
  match s with
  | '0' :: 'x' :: rest => readBased 16 rest
  | '0' :: 'o' :: rest => readBased 8 rest
  | '0' :: 'b' :: rest => readBased 2 rest
  | _ =>
    let (negative, rest) := readSign s
    match expectWord ['i', 'n', 'f'] rest with
    | some s => some (.float (if negative then -1 / 0 else 1 / 0), s)
    | none =>
      match expectWord ['n', 'a', 'n'] rest with
      | some s => some (.float (0 / 0), s)
      | none => readDecimal negative rest

end FeedFiler.Toml
