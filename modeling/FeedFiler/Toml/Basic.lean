import FeedFiler.Toml.Moment

/-!
# TOML values

A table holds its entries in the order of the text.
-/

namespace FeedFiler

/-- A TOML value. -/
inductive Toml where
  | string (s : String)
  | integer (n : Int64)
  | float (x : Float)
  | boolean (b : Bool)
  | moment (m : Toml.Moment)
  | array (items : List Toml)
  | table (entries : List (String × Toml))
deriving Inhabited

end FeedFiler
