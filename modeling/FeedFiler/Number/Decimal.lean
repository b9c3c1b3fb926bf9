/-!
# Decimal numbers

A non-negative number as a whole number of powers of ten, its digits, and the two ways to lay them
out.
-/

namespace FeedFiler

/-- The number `digits · 10 ^ exponent`. -/
structure Decimal where
  digits : Nat
  exponent : Int
deriving Repr, DecidableEq

/-- The digits of a natural number in base ten. -/
def natChars (n : Nat) : List Char := Nat.toDigits 10 n

/-- An integer in base ten, with a minus sign if it is negative. -/
def intChars : Int → List Char
  | .ofNat n => natChars n
  | .negSucc n => '-' :: natChars (n + 1)

/-- A natural number in base ten, with zeros in front up to a width. -/
def paddedChars (width n : Nat) : List Char :=
  let digits := natChars n
  List.replicate (width - digits.length) '0' ++ digits

/-- The natural number that a list of digits writes. -/
def natOfDigits (digits : List Char) : Nat :=
  digits.foldl (fun n c => n * 10 + (c.toNat - '0'.toNat)) 0

namespace Decimal

/-- The same number with no zero at the end of its digits. -/
def strip (d : Decimal) : Decimal :=
  go d.digits.log2 d
where
  /-- Each round drops one zero; a number has fewer digits than bits. -/
  go : Nat → Decimal → Decimal
    | 0, d => d
    | rounds + 1, d =>
      if d.digits ≠ 0 ∧ d.digits % 10 = 0 then go rounds ⟨d.digits / 10, d.exponent + 1⟩ else d

/-- The power of ten of the leading digit. -/
def leading (d : Decimal) : Int := d.exponent + (natChars d.digits).length - 1

/-- The digits with the point at its place, and `whole` at the end if nothing follows the point. -/
def positional (whole : List Char) (d : Decimal) : List Char :=
  let digits := natChars d.digits
  if 0 ≤ d.exponent then digits ++ List.replicate d.exponent.toNat '0' ++ whole
  else
    let places := (-d.exponent).toNat
    if places < digits.length then
      digits.take (digits.length - places) ++ ['.'] ++ digits.drop (digits.length - places)
    else ['0', '.'] ++ List.replicate (places - digits.length) '0' ++ digits

/-- One digit before the point, none after it if there is no further one, and the power of ten
with its sign. -/
def scientific (d : Decimal) : List Char :=
  let mantissa := match natChars d.digits with
    | first :: second :: rest => first :: '.' :: second :: rest
    | digits => digits
  let power := d.leading
  mantissa ++ ['e', if power < 0 then '-' else '+'] ++ natChars power.natAbs

end Decimal

end FeedFiler
