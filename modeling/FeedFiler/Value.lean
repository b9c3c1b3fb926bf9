import FeedFiler.Json.Printer

/-!
# Field values

A field holds a whole number, a double or a text. `ofJson?` classifies a JSON scalar by what it is;
`firstFit?` tries the three kinds in order. Both keep a number whole exactly if it fits 64 signed
bits.
-/

namespace FeedFiler

/-- The value of a record's field. -/
inductive Value where
  | int (n : Int64)
  | float (x : Float)
  | text (s : String)
deriving DecidableEq

namespace Value

/-- The text of a text. -/
def text? : Value → Option String
  | .text s => some s
  | _ => none

/-- A number as the nearest double; texts are not read. -/
def float? : Value → Option Float
  | .int n => some (Float.ofInt n.toInt)
  | .float x => some x
  | .text _ => none

/-- A number without its fraction, kept within 64 bits; texts are not read. -/
def int64? : Value → Option Int64
  | .int n => some n
  | .float x => some (truncateToInt64 x)
  | .text _ => none

/-- The value in JSON; a double that is not finite becomes `null`. -/
def toJson : Value → Json
  | .int n => Json.ofInt64 n
  | .float x => Json.ofFloat x
  | .text s => .string s

/-- The value of a JSON string or number. -/
def ofJson? : Json → Option Value
  | .string s => some (.text s)
  | .number n =>
    match n.toInt64? with
    | some i => some (.int i)
    | none => some (.float n.toFloat)
  | _ => none

/-- A JSON value as a whole number. -/
def intOf? : Json → Option Value
  | .number (.whole n) => n.toInt64?.map .int
  | _ => none

/-- A JSON value as a double; whole numbers are rounded. -/
def floatOf? : Json → Option Value
  | .number n => some (.float n.toFloat)
  | _ => none

/-- A JSON value as a text. -/
def textOf? : Json → Option Value
  | .string s => some (.text s)
  | _ => none

/-- The first of the three kinds that a JSON value fits. -/
def firstFit? (value : Json) : Option Value := intOf? value <|> floatOf? value <|> textOf? value

/-- A double in positional notation, with its shortest digits, the upper ones on a tie, and without
a point if it is whole. -/
def floatText (x : Float) : String :=
  if x.isNaN then "NaN"
  else
    let sign := if Magnitude.isNegative x then ['-'] else []
    let magnitude :=
      if x.isFinite then
        let m := Magnitude.ofFloat x
        if m.mantissa = 0 then ['0'] else (m.shortest .up).positional []
      else ['i', 'n', 'f']
    String.ofList (sign ++ magnitude)

/-- The value as a reader sees it. -/
def display : Value → String
  | .int n => String.ofList (intChars n.toInt)
  | .float x => floatText x
  | .text s => s

/-- Trying the kinds in order gives what classifying gives. -/
theorem firstFit?_eq_ofJson? (value : Json) : firstFit? value = ofJson? value := by
  cases value with
  | number n =>
    cases n with
    | whole n => cases h : n.toInt64? <;> simp [firstFit?, intOf?, floatOf?, ofJson?, Number.toInt64?, h]
    | float x hx => rfl
  | _ => rfl

end Value

end FeedFiler
