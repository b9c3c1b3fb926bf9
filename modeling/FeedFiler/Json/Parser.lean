import FeedFiler.Json.Document
import FeedFiler.Json.Double
import FeedFiler.Text.Reader

/-!
# Reading JSON

A strict reader of RFC 8259 text. A value may be nested in at most 127 arrays and objects; a number
out of the range of doubles, a raw control character in a string, an escape that is half of a
surrogate pair, and anything after the value are refused.
-/

namespace FeedFiler.Json

open Text (Reader)

/-- Space, tab, line feed and carriage return. -/
def isSpace (c : Char) : Bool := c == ' ' || c == '\t' || c == '\n' || c == '\r'

/-- The text from its first character that is no space. -/
def skipSpace (s : List Char) : List Char := s.dropWhile isSpace

/-! ## Numbers -/

/-- The fraction of a number: nothing, or a point and at least one digit. -/
def readFraction : Reader (List Char)
  | '.' :: rest =>
    let (digits, rest) := takeDigits rest
    if digits.isEmpty then none else some (digits, rest)
  | s => some ([], s)

/-- The power of ten of a number, if it has one: `e` or `E`, an optional sign, and at least one
digit. -/
def readExponent : Reader (Option Int)
  | [] => some (none, [])
  | mark :: rest =>
    if mark = 'e' ∨ mark = 'E' then
      let (negative, rest) := match rest with
        | '-' :: rest => (true, rest)
        | '+' :: rest => (false, rest)
        | _ => (false, rest)
      let (digits, rest) := takeDigits rest
      if digits.isEmpty then none
      else
        let power : Int := natOfDigits digits
        some (some (if negative then -power else power), rest)
    else some (none, mark :: rest)

/-- The digits before the point: a lone zero, or digits that start with another one. -/
def readWhole : Reader (List Char)
  | '0' :: rest => some (['0'], rest)
  | s =>
    let (digits, rest) := takeDigits s
    if digits.isEmpty then none else some (digits, rest)

/-- A finite double, or nothing. -/
def finite? (x : Float) : Option Number :=
  if h : x.isFinite = true then some (.float x h) else none

/-- The number that its parts write. Without a fraction and a power it is a whole number if that is
kept exactly; `-0` is a double. -/
def numberOf? (negative : Bool) (whole fraction : List Char) (power : Option Int) : Option Number :=
  let digits := natOfDigits whole
  let size := scaledFloat (countedDecimal whole fraction (power.getD 0))
  let double := if negative then -size else size
  if fraction.isEmpty ∧ power.isNone ∧ ¬ (negative ∧ digits = 0) then
    match WholeNumber.ofInt? (if negative then -digits else digits) with
    | some n => some (.whole n)
    | none => finite? double
  else finite? double

/-- A number. -/
def readNumber (s : List Char) : Option (Number × List Char) := do
  let (negative, s) := match s with
    | '-' :: rest => (true, rest)
    | _ => (false, s)
  let (whole, s) ← readWhole s
  let (fraction, s) ← readFraction s
  let (power, s) ← readExponent s
  let n ← numberOf? negative whole fraction power
  some (n, s)

/-! ## Strings -/

/-- The number that four digits in base sixteen write. -/
def readHex4 : Reader Nat
  | a :: b :: c :: d :: rest => do
    let a ← hexValue? a
    let b ← hexValue? b
    let c ← hexValue? c
    let d ← hexValue? d
    some (((a * 16 + b) * 16 + c) * 16 + d, rest)
  | _ => none

/-- The character of a numbered escape, after its `\u`. A number of the upper half of a surrogate
pair needs an escape of the lower half behind it. -/
def readNumbered (s : List Char) : Option (Char × List Char) := do
  let (high, rest) ← readHex4 s
  if 0xD800 ≤ high ∧ high < 0xDC00 then
    match rest with
    | '\\' :: 'u' :: rest =>
      let (low, rest) ← readHex4 rest
      if 0xDC00 ≤ low ∧ low < 0xE000 then
        some (Char.ofNat (0x10000 + (high - 0xD800) * 0x400 + (low - 0xDC00)), rest)
      else none
    | _ => none
  else if 0xDC00 ≤ high ∧ high < 0xE000 then none
  else some (Char.ofNat high, rest)

/-- The character of an escape, after its backslash. -/
def readEscape : Reader Char
  | '"' :: rest => some ('"', rest)
  | '\\' :: rest => some ('\\', rest)
  | '/' :: rest => some ('/', rest)
  | 'b' :: rest => some ('\x08', rest)
  | 'f' :: rest => some ('\x0c', rest)
  | 'n' :: rest => some ('\n', rest)
  | 'r' :: rest => some ('\r', rest)
  | 't' :: rest => some ('\t', rest)
  | 'u' :: rest => readNumbered rest
  | _ => none

theorem length_of_readHex4 {s rest : List Char} {n : Nat} (h : readHex4 s = some (n, rest)) :
    rest.length < s.length := by
  match s with
  | a :: b :: c :: d :: s =>
    simp only [readHex4, Option.bind_eq_bind, Option.bind_eq_some_iff] at h
    obtain ⟨_, _, _, _, _, _, _, _, h⟩ := h
    simp only [Option.some.injEq, Prod.mk.injEq] at h
    obtain ⟨-, rfl⟩ := h
    simp; omega
  | [] | [_] | [_, _] | [_, _, _] => simp [readHex4] at h

theorem length_of_readNumbered {s rest : List Char} {c : Char}
    (h : readNumbered s = some (c, rest)) : rest.length < s.length := by
  simp only [readNumbered, Option.bind_eq_bind, Option.bind_eq_some_iff] at h
  obtain ⟨⟨high, after⟩, hh, h⟩ := h
  have h1 := length_of_readHex4 hh
  simp only at h
  split at h
  · split at h
    · next tail =>
      obtain ⟨⟨low, after'⟩, hl, h⟩ := Option.bind_eq_some_iff.1 h
      have h2 := length_of_readHex4 hl
      simp only at h
      split at h
      · simp only [Option.some.injEq, Prod.mk.injEq] at h
        obtain ⟨-, rfl⟩ := h
        simp at h1; omega
      · simp at h
    · simp at h
  · split at h
    · simp at h
    · simp only [Option.some.injEq, Prod.mk.injEq] at h
      obtain ⟨-, rfl⟩ := h
      exact h1

theorem length_of_readEscape {s rest : List Char} {c : Char} (h : readEscape s = some (c, rest)) :
    rest.length < s.length := by
  unfold readEscape at h
  split at h <;> try (simp only [Option.some.injEq, Prod.mk.injEq] at h; obtain ⟨-, rfl⟩ := h; simp)
  · have := length_of_readNumbered h
    simp; omega
  · simp at h

/-- The characters of a string up to its closing quote. -/
def readStringBody : Reader (List Char)
  | [] => none
  | c :: rest =>
    if c = '"' then some ([], rest)
    else if c = '\\' then
      match h : readEscape rest with
      | none => none
      | some (c, rest') =>
        have := length_of_readEscape h
        (readStringBody rest').map fun (cs, rest) => (c :: cs, rest)
    else if c.toNat < 0x20 then none
    else (readStringBody rest).map fun (cs, rest) => (c :: cs, rest)
termination_by s => s.length
decreasing_by all_goals (simp_wf; try omega)

/-- A string with its quotes. -/
def readString : Reader String
  | '"' :: rest => (readStringBody rest).map fun (cs, rest) => (String.ofList cs, rest)
  | _ => none

/-! ## Values -/

/-- The items of an array up to its closing bracket, after a first item or none. The bound on their
number is the length of the text. -/
def readItems (item : Reader Json) : Nat → Reader (List Json)
  | 0, _ => none
  | bound + 1, s => do
    let (first, s) ← item (skipSpace s)
    match skipSpace s with
    | ',' :: s =>
      let (rest, s) ← readItems item bound s
      some (first :: rest, s)
    | ']' :: s => some ([first], s)
    | _ => none

/-- The members of an object up to its closing brace, each a string, a colon and a value. -/
def readMembers (item : Reader Json) : Nat → Reader (List (String × Json))
  | 0, _ => none
  | bound + 1, s => do
    let (key, s) ← readString (skipSpace s)
    match skipSpace s with
    | ':' :: s =>
      let (value, s) ← item (skipSpace s)
      match skipSpace s with
      | ',' :: s =>
        let (rest, s) ← readMembers item bound s
        some ((key, value) :: rest, s)
      | '\x7d' :: s => some ([(key, value)], s)
      | _ => none
    | _ => none

/-- An array after its opening bracket. -/
def readArray (item : Reader Json) (s : List Char) : Option (List Json × List Char) :=
  match skipSpace s with
  | ']' :: s => some ([], s)
  | s => readItems item (s.length + 1) s

/-- An object after its opening brace, its members as they are written. -/
def readObject (item : Reader Json) (s : List Char) : Option (List (String × Json) × List Char) :=
  match skipSpace s with
  | '\x7d' :: s => some ([], s)
  | s => readMembers item (s.length + 1) s

/-- The rest of a word, which stands for a value. -/
def readWord (word : List Char) (value : Json) (s : List Char) : Option (Json × List Char) :=
  (Text.expectWord word s).map fun rest => (value, rest)

/-- A value that may open arrays and objects within each other as often as `room` says. The members
of its objects are as they are written, repetitions included. -/
def readValue (room : Nat) (s : List Char) : Option (Json × List Char) :=
  match s with
  | [] => none
  | c :: rest =>
    if c = 'n' then readWord ['u', 'l', 'l'] .null rest
    else if c = 't' then readWord ['r', 'u', 'e'] (.bool true) rest
    else if c = 'f' then readWord ['a', 'l', 's', 'e'] (.bool false) rest
    else if c = '"' then (readStringBody rest).map fun (cs, s) => (.string (String.ofList cs), s)
    else if c = '[' then
      match room with
      | 0 => none
      | room + 1 => (readArray (readValue room) rest).map fun (items, s) => (.array items, s)
    else if c = '\x7b' then
      match room with
      | 0 => none
      | room + 1 =>
        (readObject (readValue room) rest).map fun (members, s) => (.object members, s)
    else (readNumber (c :: rest)).map fun (n, s) => (.number n, s)

/-- How many arrays and objects may stand within each other. -/
def maxDepth : Nat := 127

/-- What a reader makes of a whole text, with spaces around it. -/
def readWholeText {α : Type} (reader : Reader α) (s : List Char) : Option α :=
  match reader (skipSpace s) with
  | some (value, rest) => if (skipSpace rest).isEmpty then some value else none
  | none => none

/-- An object with its braces, its members as they are written. -/
def readDocument : Reader (List (String × Json))
  | '\x7b' :: s => readObject (readValue (maxDepth - 1)) s
  | _ => none

/-- The members of the object that a text writes, as they are written. -/
def parseMembers? (text : String) : Option (List (String × Json)) :=
  readWholeText readDocument text.toList

/-- The value that a text writes. -/
def parse? (text : String) : Option Json :=
  (readWholeText (readValue maxDepth) text.toList).map settle

end FeedFiler.Json

namespace FeedFiler

/-- The document that a text writes. -/
def Document.parse? (text : String) : Option Document :=
  (Json.parseMembers? text).map Document.settle

end FeedFiler
