import FeedFiler.Text.Lines

/-!
# Lines cut back

A text of lines, each ended by a line feed, is cut into just these lines.
-/

namespace FeedFiler.Text

theorem cutLines_append {line : List Char} (h : '\n' ∉ line) (rest : List Char) :
    cutLines (line ++ '\n' :: rest) = (line ++ ['\n']) :: cutLines rest := by
  induction line with
  | nil => simp [cutLines]
  | cons c line ih =>
      simp only [List.mem_cons, not_or] at h
      rw [List.cons_append, cutLines, if_neg (Ne.symm h.1), ih h.2]
      rfl

/-- Behind a text whose last line has its ending, the lines begin afresh. -/
theorem cutLines_append_of_ended {front : List Char} (h : front ≠ [] → front.getLast? = some '\n')
    (rest : List Char) : cutLines (front ++ rest) = cutLines front ++ cutLines rest := by
  induction front with
  | nil => rfl
  | cons c front ih =>
      have hf : front ≠ [] → front.getLast? = some '\n' := fun hne => by
        rw [← h (List.cons_ne_nil c front), List.getLast?_cons, List.getLast?_eq_some_getLast hne]
        rfl
      rw [List.cons_append, cutLines, cutLines, ih hf]
      by_cases hc : c = '\n'
      · rw [if_pos hc, if_pos hc, List.cons_append]
      · rw [if_neg hc, if_neg hc]
        cases hl : cutLines front with
        | cons line lines => rfl
        | nil =>
            have hnil : front = [] := by rw [← flatten_cutLines front, hl, List.flatten_nil]
            rw [hnil] at h
            exact absurd (Option.some.inj (h (List.cons_ne_nil c []))) hc

theorem lines_append_of_ended {front : List Char} (h : front ≠ [] → front.getLast? = some '\n')
    (rest : List Char) : lines (front ++ rest) = lines front ++ lines rest := by
  rw [lines, cutLines_append_of_ended h, List.map_append, lines, lines]

theorem dropEnding_append {line : List Char} (h : line.getLast? ≠ some '\r') :
    dropEnding (line ++ ['\n']) = line := by
  rw [← List.head?_reverse] at h
  rw [dropEnding, List.reverse_append, List.reverse_singleton, List.singleton_append]
  cases hr : line.reverse with
  | nil => simpa using hr.symm
  | cons c cs =>
      have hc : c ≠ '\r' := by
        rintro rfl
        exact h (by rw [hr]; rfl)
      split
      · next he => exact absurd (List.cons.inj (List.cons.inj he).2).1 hc
      · next he =>
          rw [← (List.cons.inj he).2, ← hr, List.reverse_reverse]
      · next h1 h2 => exact absurd rfl (h2 _)

theorem lines_line {line : List Char} (hn : '\n' ∉ line) (hr : line.getLast? ≠ some '\r') (rest : List Char) :
    lines (line ++ '\n' :: rest) = line :: lines rest := by
  rw [lines, cutLines_append hn, List.map_cons, dropEnding_append hr, lines]

theorem lines_flatMap {ls : List (List Char)} (hn : ∀ l ∈ ls, '\n' ∉ l)
    (hr : ∀ l ∈ ls, l.getLast? ≠ some '\r') : lines (ls.flatMap (· ++ ['\n'])) = ls := by
  induction ls with
  | nil => rfl
  | cons l ls ih =>
      rw [List.flatMap_cons, List.append_assoc, List.singleton_append,
        lines_line (hn l List.mem_cons_self) (hr l List.mem_cons_self),
        ih (fun m hm => hn m (List.mem_cons_of_mem l hm)) fun m hm => hr m (List.mem_cons_of_mem l hm)]

end FeedFiler.Text
