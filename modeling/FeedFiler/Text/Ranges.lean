/-!
# Sets of characters

A Unicode property is a set of characters, written as closed ranges of code points. The ranges of a
set ascend and leave a gap between each other, so that a set is written in one way.
-/

namespace FeedFiler.Text

/-- Each range is closed and stands after a gap behind the one before it. -/
def ascend : List (Nat × Nat) → Bool
  | [] => true
  | [(first, last)] => first ≤ last
  | (first, last) :: (next, final) :: rest =>
    first ≤ last && last + 1 < next && ascend ((next, final) :: rest)

/-- A set of characters as closed ranges of code points. -/
structure Ranges where
  bounds : List (Nat × Nat)
  ascending : ascend bounds = true := by decide +kernel

namespace Ranges

/-- The character is in the set. -/
def contains (ranges : Ranges) (c : Char) : Bool :=
  ranges.bounds.any fun (first, last) => first ≤ c.toNat && c.toNat ≤ last

/-- How many code points the ranges cover. -/
def size (ranges : Ranges) : Nat :=
  ranges.bounds.foldl (fun n (first, last) => n + (last + 1 - first)) 0

theorem contains_iff {ranges : Ranges} {c : Char} :
    ranges.contains c = true ↔ ∃ r ∈ ranges.bounds, r.1 ≤ c.toNat ∧ c.toNat ≤ r.2 := by
  simp only [contains, List.any_eq_true, Bool.and_eq_true, decide_eq_true_eq]

end Ranges

end FeedFiler.Text
