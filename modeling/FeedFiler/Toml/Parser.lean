import FeedFiler.Toml.Draft
import FeedFiler.Toml.Numbers
import FeedFiler.Toml.Strings

/-!
# Reading TOML

A reader of TOML 1.0 text. Arrays and inline tables may be nested to a depth of 79, and a key may
have as many dotted parts.
-/

namespace FeedFiler.Toml

open Text (Reader expect expectNewline expectWord)

/-- The text from its first character that is no blank, line ending or comment. A comment goes on to
the end of its line. -/
def skipLayout (inComment : Bool) : List Char → List Char
  | [] => []
  | c :: rest =>
    if c = '\n' ∨ (c = '\r' ∧ rest.head? = some '\n') then skipLayout false rest
    else if inComment then
      if isTextChar c then skipLayout true rest else c :: rest
    else if isBlank c then skipLayout false rest
    else if c = '#' then skipLayout true rest
    else c :: rest

/-- What follows the rest of a line: blanks, a comment or none, and the line's ending or the end of
the text. -/
def expectLineEnd (s : List Char) : Option (List Char) :=
  let s := skipBlanks s
  let s := match s with
    | '#' :: rest => rest.dropWhile isTextChar
    | _ => s
  match s with
  | [] => some []
  | s => expectNewline s

/-! ## Keys -/

/-- The character may stand in a key without quotes. -/
def isKeyChar (c : Char) : Bool := c.isAlphanum || c == '-' || c == '_'

/-- One part of a key, with or without quotes. -/
def readKeyPart (s : List Char) : Option (String × List Char) :=
  match readQuotedKey s with
  | some key => some key
  | none =>
    let (word, rest) := s.span isKeyChar
    if word.isEmpty then none else some (String.ofList word, rest)

/-- How deep keys, arrays and inline tables may go. -/
def maxDepth : Nat := 79

/-- A key: parts with points between them and blanks around them. At most `bound` of them. -/
def readKeyParts : Nat → Reader (List String)
  | 0, _ => none
  | bound + 1, s => do
    let (part, s) ← readKeyPart (skipBlanks s)
    match skipBlanks s with
    | '.' :: s =>
      let (parts, s) ← readKeyParts bound s
      some (part :: parts, s)
    | s => some ([part], s)

/-- A key of any number of parts that is allowed. -/
def readKey : Reader (List String) := readKeyParts maxDepth

/-- A key, an equals sign and a value. -/
def readPair (value : Reader Toml) : Reader (List String × Toml) := fun s => do
  let (keys, s) ← readKey s
  let s ← expect '=' s
  let (v, s) ← value (skipBlanks s)
  some ((keys, v), s)

/-! ## Values -/

/-- The items of an array up to its closing bracket, after an item, a comma, or none of them. -/
def readItems (item : Reader Toml) : Nat → Reader (List Toml)
  | 0, _ => none
  | bound + 1, s =>
    match skipLayout false s with
    | ']' :: s => some ([], s)
    | s => do
      let (first, s) ← item s
      match skipLayout false s with
      | ']' :: s => some ([first], s)
      | ',' :: s =>
        let (rest, s) ← readItems item bound s
        some (first :: rest, s)
      | _ => none

/-- The pairs of an inline table up to its closing brace, at least one. -/
def readPairs (value : Reader Toml) : Nat → Reader (List Statement)
  | 0, _ => none
  | bound + 1, s => do
    let ((keys, v), s) ← readPair value s
    match skipBlanks s with
    | '\x7d' :: s => some ([.pair keys v], s)
    | ',' :: s =>
      let (rest, s) ← readPairs value bound s
      some (.pair keys v :: rest, s)
    | _ => none

/-- An inline table after its opening brace. -/
def readInlineTable (value : Reader Toml) (s : List Char) : Option (Toml × List Char) :=
  match skipBlanks s with
  | '\x7d' :: s => some (.table [], s)
  | s => do
    let (pairs, s) ← readPairs value (s.length + 1) s
    let entries ← ofStatements? pairs
    some (.table entries, s)

/-- A date, a time, or a number. -/
def readQuantity (s : List Char) : Option (Toml × List Char) :=
  match readMoment s with
  | some (m, s) => some (.moment m, s)
  | none => readNumber s

/-- A value that may open arrays and inline tables within each other as often as `room` says. -/
def readValue (room : Nat) (s : List Char) : Option (Toml × List Char) :=
  match s with
  | [] => none
  | c :: rest =>
    if c = '"' ∨ c = '\'' then (readString (c :: rest)).map fun (text, s) => (.string text, s)
    else if c = 't' then (expectWord ['r', 'u', 'e'] rest).map fun s => (.boolean true, s)
    else if c = 'f' then (expectWord ['a', 'l', 's', 'e'] rest).map fun s => (.boolean false, s)
    else if c = '[' then
      match room with
      | 0 => none
      | room + 1 =>
        (readItems (readValue room) (rest.length + 1) rest).map fun (items, s) => (.array items, s)
    else if c = '\x7b' then
      match room with
      | 0 => none
      | room + 1 => readInlineTable (readValue room) rest
    else readQuantity (c :: rest)

/-! ## Documents -/

/-- One statement, without the end of its line. -/
def readStatement (s : List Char) : Option (Statement × List Char) :=
  match s with
  | '[' :: '[' :: s => do
    let (path, s) ← readKey s
    let s ← expectWord [']', ']'] s
    some (.element path, s)
  | '[' :: s => do
    let (path, s) ← readKey s
    let s ← expect ']' s
    some (.table path, s)
  | s => (readPair (readValue maxDepth) s).map fun ((keys, value), s) => (.pair keys value, s)

/-- The statements of a text, each with the end of its line. -/
def readStatements : Nat → List Char → Option (List Statement)
  | 0, _ => none
  | bound + 1, s =>
    match skipLayout false s with
    | [] => some []
    | s => do
      let (first, s) ← readStatement s
      let s ← expectLineEnd s
      let rest ← readStatements bound s
      some (first :: rest)

/-- The text without a byte order mark at its front. -/
def dropMark : List Char → List Char
  | '\uFEFF' :: s => s
  | s => s

/-- The entries of the table that a text writes. -/
def parse? (text : String) : Option (List (String × Toml)) := do
  let s := dropMark text.toList
  let statements ← readStatements (s.length + 1) s
  ofStatements? statements

end FeedFiler.Toml
