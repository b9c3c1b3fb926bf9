/-!
# Lines

A line ends with a line feed, which may stand after a carriage return; the last line may lack its
ending.
-/

namespace FeedFiler.Text

/-- The lines of a text, each with its ending. -/
def cutLines : List Char → List (List Char)
  | [] => []
  | c :: rest =>
    if c = '\n' then ['\n'] :: cutLines rest
    else match cutLines rest with
      | [] => [[c]]
      | line :: lines => (c :: line) :: lines

/-- The line without a line feed at its end, and then without a carriage return before it. -/
def dropEnding (line : List Char) : List Char :=
  match line.reverse with
  | '\n' :: '\r' :: rest => rest.reverse
  | '\n' :: rest => rest.reverse
  | _ => line

/-- The lines of a text, without their endings. -/
def lines (s : List Char) : List (List Char) := (cutLines s).map dropEnding

/-- No character is lost. -/
theorem flatten_cutLines (s : List Char) : (cutLines s).flatten = s := by
  induction s with
  | nil => rfl
  | cons c rest ih =>
    simp only [cutLines]
    split
    · next h => simp [h, ih]
    · split <;> simp_all

end FeedFiler.Text
