import FeedFiler.Json.Document
import FeedFiler.Number.Shortest

/-!
# Writing JSON

The compact text of a value. Strings escape quotes, backslashes and the characters below space.
Doubles have their shortest digits, a point where their leading digit stands for `10 ^ -5` to
`10 ^ 15`, and a power of ten elsewhere.
-/

namespace FeedFiler

/-- The digit of a number below sixteen, in lower case. -/
def hexDigit (n : Nat) : Char := if n < 10 then Char.ofNat (48 + n) else Char.ofNat (87 + n)

namespace Json

/-- The written form of one character of a string. -/
def escape (c : Char) : List Char :=
  if c = '"' then ['\\', '"']
  else if c = '\\' then ['\\', '\\']
  else if c = '\x08' then ['\\', 'b']
  else if c = '\x0c' then ['\\', 'f']
  else if c = '\n' then ['\\', 'n']
  else if c = '\r' then ['\\', 'r']
  else if c = '\t' then ['\\', 't']
  else if c.toNat < 0x20 then ['\\', 'u', '0', '0', hexDigit (c.toNat / 16), hexDigit (c.toNat % 16)]
  else [c]

/-- A text as a JSON string. -/
def stringChars (s : String) : List Char := '"' :: s.toList.flatMap escape ++ ['"']

/-- The magnitude of a double: its shortest digits, to the even neighbour on a tie. -/
def magnitudeChars (x : Magnitude) : List Char :=
  if x.mantissa = 0 then ['0', '.', '0']
  else
    let d := x.shortest .toEven
    if -5 ≤ d.leading ∧ d.leading ≤ 15 then d.positional ['.', '0'] else d.scientific

/-- A finite double. -/
def floatChars (x : Float) : List Char :=
  let magnitude := magnitudeChars (Magnitude.ofFloat x)
  if Magnitude.isNegative x then '-' :: magnitude else magnitude

/-- A number: a whole one in decimal, a double always with a point or a power of ten. -/
def numberChars : Number → List Char
  | .whole n => intChars n.val
  | .float x _ => floatChars x

mutual
/-- The text of a value, without blanks. -/
def chars : Json → List Char
  | .null => ['n', 'u', 'l', 'l']
  | .bool true => ['t', 'r', 'u', 'e']
  | .bool false => ['f', 'a', 'l', 's', 'e']
  | .number n => numberChars n
  | .string s => stringChars s
  | .array items => '[' :: itemChars items ++ [']']
  | .object members => '\x7b' :: memberChars members ++ ['\x7d']

/-- The texts of some values with commas between them. -/
def itemChars : List Json → List Char
  | [] => []
  | [item] => chars item
  | item :: rest => chars item ++ ',' :: itemChars rest

/-- The texts of some members with commas between them. -/
def memberChars : List (String × Json) → List Char
  | [] => []
  | [(key, value)] => stringChars key ++ ':' :: chars value
  | (key, value) :: rest => stringChars key ++ ':' :: chars value ++ ',' :: memberChars rest
end

/-- The compact text of a value. -/
def render (value : Json) : String := String.ofList value.chars

end Json

/-- The compact text of a document. -/
def Document.render (doc : Document) : String := (Json.object doc).render

end FeedFiler
