import FeedFiler.Text.Visible

/-!
# Quoted text

A text between double quotes, on one line. A quote and a backslash get a backslash; tab, line feed,
carriage return and NUL get a letter of their own; other characters that do not show are written by
their number.
-/

namespace FeedFiler.Text

/-- The digits of a number in base sixteen, in lower case. -/
def hexDigits (n : Nat) : List Char := Nat.toDigits 16 n

/-- The written form of one character between quotes. -/
def quoteChar (c : Char) : List Char :=
  if c = '"' then ['\\', '"']
  else if c = '\\' then ['\\', '\\']
  else if c = '\t' then ['\\', 't']
  else if c = '\n' then ['\\', 'n']
  else if c = '\r' then ['\\', 'r']
  else if c = '\x00' then ['\\', '0']
  else if isVisible c then [c]
  else ['\\', 'u', '\x7b'] ++ hexDigits c.toNat ++ ['\x7d']

/-- The text between double quotes. -/
def quote (s : String) : String :=
  String.ofList (['"'] ++ s.toList.flatMap quoteChar ++ ['"'])

example : quote "q\"é\n" = "\"q\\\"é\\n\"" := by decide +kernel

end FeedFiler.Text
