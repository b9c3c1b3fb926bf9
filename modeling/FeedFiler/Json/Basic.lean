import FeedFiler.Number.Reading

/-!
# JSON values

A number is a whole number that is kept exactly, or a finite double. An object is the list of its
members in their order.
-/

namespace FeedFiler

/-- A whole number that a JSON value keeps exactly: one of 64 bits, signed or
unsigned. -/
structure WholeNumber where
  val : Int
  lower : -9223372036854775808 ≤ val
  upper : val ≤ 18446744073709551615
deriving DecidableEq

namespace WholeNumber

/-- The whole number `n`, if it is kept exactly. -/
def ofInt? (n : Int) : Option WholeNumber :=
  if h : -9223372036854775808 ≤ n ∧ n ≤ 18446744073709551615 then some ⟨n, h.1, h.2⟩ else none

/-- Every signed 64-bit integer is kept exactly. -/
def ofInt64 (n : Int64) : WholeNumber :=
  ⟨n.toInt, n.le_toInt, by have := n.toInt_lt; omega⟩

/-- The signed 64-bit integer of the same value, if there is one. -/
def toInt64? (n : WholeNumber) : Option Int64 := int64OfInt? n.val

end WholeNumber

/-- A JSON number. -/
inductive Number where
  | whole (n : WholeNumber)
  | float (x : Float) (finite : x.isFinite = true)
deriving DecidableEq

namespace Number

/-- The number as a signed 64-bit integer; a double is none, even without a fraction. -/
def toInt64? : Number → Option Int64
  | .whole n => n.toInt64?
  | .float _ _ => none

/-- The nearest double. -/
def toFloat : Number → Float
  | .whole n => Float.ofInt n.val
  | .float x _ => x

end Number

/-- A JSON value. -/
inductive Json where
  | null
  | bool (b : Bool)
  | number (n : Number)
  | string (s : String)
  | array (items : List Json)
  | object (members : List (String × Json))
deriving Inhabited

namespace Json

/-- The text of a string. -/
def string? : Json → Option String
  | .string s => some s
  | _ => none

/-- The items of an array. -/
def array? : Json → Option (List Json)
  | .array items => some items
  | _ => none

/-- The members of an object. -/
def object? : Json → Option (List (String × Json))
  | .object members => some members
  | _ => none

/-- A double as a value; what is not finite has no number and becomes `null`. -/
def ofFloat (x : Float) : Json :=
  if h : x.isFinite = true then .number (.float x h) else .null

/-- A signed 64-bit integer as a value. -/
def ofInt64 (n : Int64) : Json := .number (.whole (.ofInt64 n))

end Json

end FeedFiler
