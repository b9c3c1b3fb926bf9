import FeedFiler.Number.Reading
import FeedFiler.Text.Reader

/-!
# Strings in TOML

Strings between double quotes have escapes, strings between single quotes have none. Between triple
quotes a string may have several lines; each line ending in it is a single line feed, and one right
after the opening quotes does not count.
-/

namespace FeedFiler.Toml

open Text (Reader expectNewline)

/-- Space and tab. -/
def isBlank (c : Char) : Bool := c == ' ' || c == '\t'

/-- The text from its first character that is no blank. -/
def skipBlanks (s : List Char) : List Char := s.dropWhile isBlank

/-- The character may stand in a string or a comment: a tab, or anything but a control of ASCII. -/
def isTextChar (c : Char) : Bool := c == '\t' || (c ≥ ' ' && c != '\x7f')

/-- The text from its first character that is neither a blank nor part of a line ending. -/
def skipLines : List Char → List Char
  | [] => []
  | c :: rest =>
    if isBlank c ∨ c = '\n' ∨ (c = '\r' ∧ rest.head? = some '\n') then skipLines rest
    else c :: rest

theorem length_skipLines_le (s : List Char) : (skipLines s).length ≤ s.length := by
  induction s with
  | nil => simp [skipLines]
  | cons c rest ih =>
    simp only [skipLines]
    split
    · simp; omega
    · simp

/-! ## Escapes -/

/-- A character by its number, in `width` digits of base sixteen. Surrogates are no characters. -/
def readNumberedChar (width : Nat) (s : List Char) : Option (Char × List Char) :=
  let digits := s.take width
  match digits.mapM hexValue? with
  | none => none
  | some values =>
    let n := values.foldl (fun n v => n * 16 + v) 0
    if h : digits.length = width ∧ n.isValidChar then some (⟨UInt32.ofNat n, by
      have hlt : n < UInt32.size := Nat.lt_trans (by rcases h.2 with h | h <;> omega) (by decide : 0x110000 < UInt32.size)
      simpa [UInt32.isValidChar, UInt32.toNat_ofNat_of_lt' hlt] using h.2⟩, s.drop width)
    else none

/-- The character of an escape, after its backslash. -/
def readEscape : Reader Char
  | [] => none
  | c :: s =>
    if c = 'b' then some ('\x08', s)
    else if c = 't' then some ('\t', s)
    else if c = 'n' then some ('\n', s)
    else if c = 'f' then some ('\x0c', s)
    else if c = 'r' then some ('\r', s)
    else if c = '"' ∨ c = '\\' then some (c, s)
    else if c = 'u' then readNumberedChar 4 s
    else if c = 'U' then readNumberedChar 8 s
    else none

theorem length_of_readNumberedChar {width : Nat} {s rest : List Char} {c : Char}
    (h : readNumberedChar width s = some (c, rest)) : rest.length ≤ s.length := by
  simp only [readNumberedChar] at h
  split at h
  · simp at h
  · split at h
    · simp only [Option.some.injEq, Prod.mk.injEq] at h
      obtain ⟨-, rfl⟩ := h
      simp
    · simp at h

theorem length_of_readEscape {s rest : List Char} {c : Char} (h : readEscape s = some (c, rest)) :
    rest.length < s.length := by
  match s with
  | [] => simp [readEscape] at h
  | x :: s =>
    have plain {y : Char} (h : some (y, s) = some (c, rest)) : rest.length < (x :: s).length := by
      simp only [Option.some.injEq, Prod.mk.injEq] at h
      simp [h.2]
    have numbered {width : Nat} (h : readNumberedChar width s = some (c, rest)) :
        rest.length < (x :: s).length := Nat.lt_succ_of_le (length_of_readNumberedChar h)
    simp only [readEscape] at h
    repeat' split at h
    all_goals first
      | exact plain h
      | exact numbered h
      | simp at h

/-! ## On one line -/

/-- The characters up to the closing double quote. -/
def readBasicBody : Reader (List Char)
  | [] => none
  | c :: rest =>
    if c = '"' then some ([], rest)
    else if c = '\\' then
      match h : readEscape rest with
      | none => none
      | some (c, rest') =>
        have := length_of_readEscape h
        (readBasicBody rest').map fun (cs, s) => (c :: cs, s)
    else if isTextChar c then (readBasicBody rest).map fun (cs, s) => (c :: cs, s)
    else none
termination_by s => s.length
decreasing_by all_goals (simp_wf; try omega)

/-- The characters up to the closing single quote. -/
def readLiteralBody : Reader (List Char)
  | [] => none
  | c :: rest =>
    if c = '\'' then some ([], rest)
    else if isTextChar c then (readLiteralBody rest).map fun (cs, s) => (c :: cs, s)
    else none

/-! ## On several lines -/

/-- The end of a string between triple quotes: its quotes, and up to two that belong to the
string. -/
def readClosing (quote : Char) (s : List Char) : Option (List Char × List Char) :=
  let run := s.takeWhile (· = quote)
  if 3 ≤ run.length ∧ run.length ≤ 5 then some (run.drop 3, s.drop run.length) else none

/-- Three quotes stand at the front. -/
def closes (quote : Char) (s : List Char) : Bool := [quote, quote, quote].isPrefixOf s

/-- The characters up to the closing double quotes. A backslash at the end of a line takes the blanks
and line endings after it with it. -/
def readLongBasicBody : Reader (List Char)
  | [] => none
  | c :: rest =>
    if c = '"' ∧ closes '"' (c :: rest) then readClosing '"' (c :: rest)
    else if c = '\\' then
      match h : expectNewline (skipBlanks rest) with
      | some rest' =>
        have := length_of_skipped h
        readLongBasicBody (skipLines rest')
      | none =>
        match h : readEscape rest with
        | none => none
        | some (c, rest') =>
          have := length_of_readEscape h
          (readLongBasicBody rest').map fun (cs, s) => (c :: cs, s)
    else if c = '\r' ∧ rest.head? = some '\n' then readLongBasicBody rest
    else if c = '\n' ∨ isTextChar c then (readLongBasicBody rest).map fun (cs, s) => (c :: cs, s)
    else none
termination_by s => s.length
decreasing_by all_goals (simp_wf; try omega)
where
  /-- A line ending after blanks is shorter than what follows the backslash. -/
  length_of_skipped {rest rest' : List Char} (h : expectNewline (skipBlanks rest) = some rest') :
      (skipLines rest').length < rest.length := by
    have := Text.length_of_expectNewline h
    have := length_skipLines_le rest'
    have : (skipBlanks rest).length ≤ rest.length := (List.dropWhile_sublist _).length_le
    omega

/-- The characters up to the closing single quotes. -/
def readLongLiteralBody : Reader (List Char)
  | [] => none
  | c :: rest =>
    if c = '\'' ∧ closes '\'' (c :: rest) then readClosing '\'' (c :: rest)
    else if c = '\r' ∧ rest.head? = some '\n' then readLongLiteralBody rest
    else if c = '\n' ∨ isTextChar c then (readLongLiteralBody rest).map fun (cs, s) => (c :: cs, s)
    else none

/-- The text without a line ending at its front. -/
def dropNewline (s : List Char) : List Char := (expectNewline s).getD s

/-! ## Any string -/

/-- A string of any of the four kinds. -/
def readString (s : List Char) : Option (String × List Char) :=
  let body := match s with
    | '"' :: '"' :: '"' :: rest => readLongBasicBody (dropNewline rest)
    | '\'' :: '\'' :: '\'' :: rest => readLongLiteralBody (dropNewline rest)
    | '"' :: rest => readBasicBody rest
    | '\'' :: rest => readLiteralBody rest
    | _ => none
  body.map fun (cs, s) => (String.ofList cs, s)

/-- A string that may be a key: on one line. -/
def readQuotedKey (s : List Char) : Option (String × List Char) :=
  let body := match s with
    | '"' :: rest => readBasicBody rest
    | '\'' :: rest => readLiteralBody rest
    | _ => none
  body.map fun (cs, s) => (String.ofList cs, s)

end FeedFiler.Toml
