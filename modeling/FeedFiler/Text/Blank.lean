/-!
# White space

The 25 characters of Unicode's property White_Space, and what is left of a text without those at
its two ends.
-/

namespace FeedFiler.Text

/-- The character has Unicode's property White_Space. -/
def isBlank (c : Char) : Bool :=
  ('\t' ≤ c && c ≤ '\r') || c == ' ' || c == '\u0085' || c == '\u00a0' || c == '\u1680' ||
  ('\u2000' ≤ c && c ≤ '\u200a') || c == '\u2028' || c == '\u2029' || c == '\u202f' ||
  c == '\u205f' || c == '\u3000'

/-- The text from its first to its last character that is not blank. -/
def trim (s : List Char) : List Char :=
  (((s.dropWhile isBlank).reverse).dropWhile isBlank).reverse

example : trim "\u3000 a b\u0085\r\n".toList = "a b".toList := by decide +kernel

end FeedFiler.Text
