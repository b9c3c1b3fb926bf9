import FeedFiler.Number.Decimal

/-!
# Numbers in text

A decimal is read as the nearest double. Two grammars read numbers that stand alone in a text: whole
numbers with an optional sign, and doubles with an optional sign, an optional point, an optional
power of ten, and words for what is not a finite number.
-/

namespace FeedFiler

/-- The double nearest to a decimal. Powers of ten out of reach are not computed. -/
def Decimal.toFloat (d : Decimal) : Float :=
  if d.digits = 0 then 0
  else
    let leading := d.leading
    if leading > 310 then 1 / 0
    else if leading < -330 then 0
    else Float.ofScientific d.digits (decide (d.exponent < 0)) d.exponent.natAbs

/-- A run of ASCII digits at the front of a text, and what follows it. -/
def takeDigits (s : List Char) : List Char × List Char := s.span Char.isDigit

/-- The value of a digit in base sixteen. -/
def hexValue? (c : Char) : Option Nat :=
  if '0' ≤ c ∧ c ≤ '9' then some (c.toNat - '0'.toNat)
  else if 'a' ≤ c ∧ c ≤ 'f' then some (c.toNat - 'a'.toNat + 10)
  else if 'A' ≤ c ∧ c ≤ 'F' then some (c.toNat - 'A'.toNat + 10)
  else none

/-- A number of exactly `width` decimal digits. -/
def readFixed (width : Nat) (s : List Char) : Option (Nat × List Char) :=
  let digits := s.take width
  if digits.length = width ∧ digits.all Char.isDigit then some (natOfDigits digits, s.drop width)
  else none

/-- The text is one or more ASCII digits; their value. -/
def readNat? (s : List Char) : Option Nat :=
  if s.isEmpty then none
  else if s.all Char.isDigit then some (natOfDigits s)
  else none

/-- The signed 64-bit integer of this value, if there is one. -/
def int64OfInt? (n : Int) : Option Int64 :=
  if -9223372036854775808 ≤ n ∧ n ≤ 9223372036854775807 then some (Int64.ofInt n) else none

/-- The nanoseconds that the digits after the point of a second stand for; nine of them count. -/
def nanosOfFraction (digits : List Char) : Nat :=
  let counted := digits.take 9
  natOfDigits (counted ++ List.replicate (9 - counted.length) '0')

/-- A whole number of at most 64 bits, with an optional plus sign. -/
def readIndex? (s : List Char) : Option Nat :=
  let digits := match s with
    | '+' :: rest => rest
    | _ => s
  (readNat? digits).filter (· ≤ 18446744073709551615)

/-- A whole number of 64 bits, with an optional sign. -/
def readInt64? (s : List Char) : Option Int64 :=
  let number := match s with
    | '+' :: rest => (readNat? rest).map Int.ofNat
    | '-' :: rest => (readNat? rest).map fun n => -Int.ofNat n
    | _ => (readNat? s).map Int.ofNat
  number.bind int64OfInt?

/-- A power of ten: `e` or `E`, an optional sign, and digits. Nothing at all is the power 0. -/
def readPower? (s : List Char) : Option Int :=
  match s with
  | [] => some 0
  | mark :: rest =>
    if mark = 'e' ∨ mark = 'E' then
      match rest with
      | '+' :: digits => (readNat? digits).map Int.ofNat
      | '-' :: digits => (readNat? digits).map fun n => -Int.ofNat n
      | digits => (readNat? digits).map Int.ofNat
    else none

/-- A double without its sign: digits with at most one point among or beside them and an optional
power of ten, or the words `inf`, `infinity` and `nan` in any case. -/
def readUnsignedFloat? (s : List Char) : Option Float :=
  let word := s.map Char.toLower
  if word = ['i', 'n', 'f'] ∨ word = ['i', 'n', 'f', 'i', 'n', 'i', 't', 'y'] then some (1 / 0)
  else if word = ['n', 'a', 'n'] then some (0 / 0)
  else
    let (whole, rest) := takeDigits s
    let (fraction, rest) := match rest with
      | '.' :: rest => takeDigits rest
      | _ => ([], rest)
    if whole.isEmpty ∧ fraction.isEmpty then none
    else (readPower? rest).map fun power =>
      (Decimal.mk (natOfDigits (whole ++ fraction)) (power - fraction.length)).toFloat

/-- A double with an optional sign. -/
def readFloat? (s : List Char) : Option Float :=
  match s with
  | '+' :: rest => readUnsignedFloat? rest
  | '-' :: rest => (readUnsignedFloat? rest).map (- ·)
  | _ => readUnsignedFloat? s

example : (readFloat? "-.5e1".toList).map Float.toBits = some (-5 : Float).toBits := by decide +kernel
example : readFloat? "1.e".toList = none := by decide +kernel
example : readInt64? "-9223372036854775808".toList = some Int64.minValue := by decide +kernel

end FeedFiler
