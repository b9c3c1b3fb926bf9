/-!
# Readers

A reader takes something off the front of a text and leaves the rest.
-/

namespace FeedFiler.Text

/-- Reads a value off the front of a text and leaves the rest. -/
abbrev Reader (α : Type) := List Char → Option (α × List Char)

/-- What follows a given character. -/
def expect (c : Char) : List Char → Option (List Char)
  | [] => none
  | x :: rest => if x = c then some rest else none

/-- What follows a given word. -/
def expectWord (word s : List Char) : Option (List Char) :=
  if word.isPrefixOf s then some (s.drop word.length) else none

/-- A line feed, which may stand after a carriage return; what follows it. -/
def expectNewline : List Char → Option (List Char)
  | '\n' :: rest => some rest
  | '\r' :: '\n' :: rest => some rest
  | _ => none

theorem length_of_expectNewline {s rest : List Char} (h : expectNewline s = some rest) :
    rest.length < s.length := by
  unfold expectNewline at h
  split at h
  · cases h; simp only [List.length_cons]; omega
  · cases h; simp only [List.length_cons]; omega
  · cases h

end FeedFiler.Text
