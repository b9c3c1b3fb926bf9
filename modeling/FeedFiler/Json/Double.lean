import FeedFiler.Number.Reading

/-!
# Decimals in JSON

A decimal in JSON is read with 64 bits. Of its digits those count that make a number of so many bits, and
this number is multiplied or divided by powers of ten. Each step rounds to the nearest double, so a decimal
of many digits can become a double beside the nearest one.
-/

namespace FeedFiler.Json

/-- Takes in digits while the number that they make has 64 bits: the number, and the digits from the first
one on that does not count. -/
def takeIn (n : Nat) : List Char → Nat × List Char
  | [] => (n, [])
  | c :: digits =>
    let next := n * 10 + (c.toNat - '0'.toNat)
    if next ≤ 18446744073709551615 then takeIn next digits else (n, c :: digits)

/-- The decimal of the digits that count, before a point and behind it. Digits before the point that do not
count leave their places. -/
def countedDecimal (whole fraction : List Char) (power : Int) : Decimal :=
  let (n, left) := takeIn 0 whole
  let (n, ignored) := takeIn n fraction
  ⟨n, power + left.length + ignored.length - fraction.length⟩

/-- A power of ten in the range of doubles. -/
def powerOfTen (places : Nat) : Float := Float.ofScientific 1 false places

/-- Divides by the greatest power of ten so many times, or until nothing is left. -/
def divideDown : Nat → Float → Float
  | 0, x => x
  | rounds + 1, x => if x == 0 then x else divideDown rounds (x / powerOfTen 308)

/-- The double of the digits, multiplied or divided by the power of ten. It is infinite if that is out of
range. -/
def scaledFloat (d : Decimal) : Float :=
  let x := Float.ofNat d.digits
  match d.exponent with
  | .ofNat 0 => x
  | .ofNat places => if places ≤ 308 then x * powerOfTen places else if x == 0 then x else 1 / 0
  | .negSucc n =>
    let rounds := n / 308
    divideDown rounds x / powerOfTen (n + 1 - 308 * rounds)

-- The double before this one is nearer to the decimal.
example : scaledFloat (countedDecimal "31".toList "245270191439438".toList 0) = 31.24527019143944 := by
  decide +kernel

end FeedFiler.Json
