import FeedFiler.Number.Decimal
import FeedFiler.Number.Magnitude

/-!
# The shortest decimal of a double

The fewest digits that read back as the same double, and of those the nearest to it. The search
compares decimals with the ends of the double's rounding interval in natural numbers.
-/

namespace FeedFiler

/-- Which of two decimals equally near to a double is taken. -/
inductive Tie where
  | toEven
  | up
deriving Repr, DecidableEq

namespace Magnitude

/-- Compares `a · 10 ^ i` with `n · 2 ^ j`. -/
def compareScaled (a : Nat) (i : Int) (n : Nat) (j : Int) : Ordering :=
  compare (a * Nat.pow 10 i.toNat * Nat.pow 2 (-j).toNat)
    (n * Nat.pow 2 j.toNat * Nat.pow 10 (-i).toNat)

/-- The decimal lies among the reals that round to this double: between the midpoints to its two
neighbours, with the ends if its mantissa is even. -/
def readsBack (x : Magnitude) (d : Decimal) : Bool :=
  let low := 4 * x.mantissa - if x.narrowBelow then 1 else 2
  let below := compareScaled d.digits d.exponent low (x.exponent - 2)
  let above := compareScaled d.digits d.exponent (4 * x.mantissa + 2) (x.exponent - 2)
  let closed := x.mantissa % 2 == 0
  (below == .gt || (closed && below == .eq)) && (above == .lt || (closed && above == .eq))

/-- The least power of ten above the magnitude, up to the error of the estimate from its binary
logarithm. -/
def scale (x : Magnitude) : Int :=
  let estimate := ((x.mantissa.log2 : Int) + x.exponent) * 30103 / 100000
  let below (k : Int) := compareScaled 1 k x.mantissa x.exponent == .gt
  if below estimate then estimate
  else if below (estimate + 1) then estimate + 1
  else estimate + 2

/-- The whole number of units `10 ^ grid` below the magnitude. -/
def floorAt (x : Magnitude) (grid : Int) : Nat :=
  x.mantissa * Nat.pow 2 x.exponent.toNat * Nat.pow 10 (-grid).toNat /
    (Nat.pow 2 (-x.exponent).toNat * Nat.pow 10 grid.toNat)

/-- Of the two decimals next to the magnitude on a grid the one that reads back, or the nearer one
if both do. -/
def nearestAt? (tie : Tie) (x : Magnitude) (grid : Int) : Option Decimal :=
  let low := x.floorAt grid
  match x.readsBack ⟨low, grid⟩, x.readsBack ⟨low + 1, grid⟩ with
  | false, false => none
  | true, false => some ⟨low, grid⟩
  | false, true => some ⟨low + 1, grid⟩
  | true, true =>
    match compareScaled (2 * low + 1) grid (2 * x.mantissa) x.exponent with
    | .gt => some ⟨low, grid⟩
    | .lt => some ⟨low + 1, grid⟩
    | .eq => match tie with
      | .toEven => some ⟨if low % 2 = 0 then low else low + 1, grid⟩
      | .up => some ⟨low + 1, grid⟩

/-- The magnitude written out in full. -/
def exact (x : Magnitude) : Decimal :=
  ⟨x.mantissa * Nat.pow 2 x.exponent.toNat * Nat.pow 5 (-x.exponent).toNat, min x.exponent 0⟩

/-- The decimal with the fewest digits that reads back as the magnitude. No double needs more than
seventeen. -/
def shortest (tie : Tie) (x : Magnitude) : Decimal :=
  let scale := x.scale
  let found := (List.range 17).findSome? fun n : Nat => x.nearestAt? tie (scale - (n + 1 : Nat))
  (found.getD x.exact).strip

end Magnitude

example : (Magnitude.ofFloat 1e23).shortest .toEven = ⟨1, 23⟩ := by decide +kernel
example : (Magnitude.ofFloat 5e-324).shortest .toEven = ⟨5, -324⟩ := by decide +kernel
example : (Magnitude.ofFloat 2.98023223876953125e-8).shortest .up = ⟨29802322387695313, -24⟩ := by
  decide +kernel

end FeedFiler
