/-!
# The magnitude of a double

A finite double without its sign is a natural number of powers of two. Decimals are compared with
it in natural numbers only.
-/

namespace FeedFiler

/-- The number `mantissa · 2 ^ exponent`, the magnitude of a finite double. -/
structure Magnitude where
  mantissa : Nat
  exponent : Int
  /-- The gap to the double below is half as wide as the gap to the double above. -/
  narrowBelow : Bool
deriving Repr, DecidableEq

namespace Magnitude

/-- The sign bit of a double. -/
def isNegative (x : Float) : Bool := x.toBits >>> 63 == 1

/-- The magnitude of a finite double. -/
def ofFloat (x : Float) : Magnitude :=
  let power := ((x.toBits >>> 52) &&& 0x7FF).toNat
  let fraction := (x.toBits &&& 0xFFFFFFFFFFFFF).toNat
  if power = 0 then ⟨fraction, -1074, false⟩
  else ⟨0x10000000000000 + fraction, (power : Int) - 1075, fraction == 0 && power > 1⟩

/-- The whole part of a magnitude. -/
def whole (x : Magnitude) : Nat :=
  x.mantissa * Nat.pow 2 x.exponent.toNat / Nat.pow 2 (-x.exponent).toNat

end Magnitude

/-- A double without its fraction, and kept within the bounds of a 64-bit integer; what is not a
number gives 0. -/
def truncateToInt64 (x : Float) : Int64 :=
  if x.isNaN then 0
  else if x.isFinite then
    let n : Int := (Magnitude.ofFloat x).whole
    let n := if Magnitude.isNegative x then -n else n
    Int64.ofInt (max Int64.minValue.toInt (min Int64.maxValue.toInt n))
  else if Magnitude.isNegative x then Int64.minValue else Int64.maxValue

end FeedFiler
