import Std.Data.ExtTreeSet

/-!
# Addresses

The topic that an envelope is published on, such as `feedmaker.vix`.
-/

namespace FeedFiler

/-- The name of a topic on the bus. -/
structure Address where
  text : String
deriving DecidableEq, Repr

namespace Address

/-- Addresses are ordered as their texts, by code points. -/
instance : Ord Address where
  compare a b := compare a.text b.text

instance : Std.TransOrd Address where
  eq_swap := (inferInstance : Std.TransOrd String).eq_swap
  isLE_trans := (inferInstance : Std.TransOrd String).isLE_trans

instance : Std.LawfulEqOrd Address where
  compare_self := (inferInstance : Std.LawfulEqOrd String).compare_self
  eq_of_compare {a b} h := by
    obtain ⟨a⟩ := a
    obtain ⟨b⟩ := b
    exact congrArg Address.mk ((inferInstance : Std.LawfulEqOrd String).eq_of_compare h)

/-- Some addresses in their order, each of them once. -/
def sorted (addresses : List Address) : List Address :=
  (Std.ExtTreeSet.ofList addresses).toList

/-- No topic has this name. -/
def isEmpty (a : Address) : Bool := a.text.isEmpty

end Address

end FeedFiler
