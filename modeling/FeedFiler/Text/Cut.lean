/-!
# Cutting a text at a mark

`cut?` finds the first place where a mark stands. The two parts and the mark between them are the
text again, and no earlier place carries the mark.
-/

namespace FeedFiler.Text

/-- What stands before the first place where `mark` begins, and what stands after the mark. -/
def cut? (mark : List Char) : List Char → Option (List Char × List Char)
  | [] => if mark.isEmpty then some ([], []) else none
  | c :: rest =>
    if mark.isPrefixOf (c :: rest) then some ([], (c :: rest).drop mark.length)
    else (cut? mark rest).map fun (before, after) => (c :: before, after)

theorem eq_of_cut? {mark s before after : List Char} (h : cut? mark s = some (before, after)) :
    s = before ++ mark ++ after := by
  induction s generalizing before with
  | nil =>
    simp only [cut?] at h
    split at h
    · next hm => simp_all
    · simp at h
  | cons c rest ih =>
    simp only [cut?] at h
    split at h
    · next hm =>
      obtain ⟨t, ht⟩ := List.isPrefixOf_iff_prefix.1 hm
      simp only [Option.some.injEq, Prod.mk.injEq] at h
      obtain ⟨rfl, rfl⟩ := h
      simp [← ht]
    · obtain ⟨⟨b, a⟩, hb, he⟩ := Option.map_eq_some_iff.1 h
      simp only [Prod.mk.injEq] at he
      obtain ⟨rfl, rfl⟩ := he
      simpa using ih hb

theorem length_of_cut? {mark s before after : List Char} (h : cut? mark s = some (before, after)) :
    before.length + mark.length + after.length = s.length := by
  rw [eq_of_cut? h]; simp; omega

/-- The parts of a text between the places where `c` stands; there is always at least one. -/
def splitAt (c : Char) : List Char → List (List Char)
  | [] => [[]]
  | x :: rest =>
    if x = c then [] :: splitAt c rest
    else match splitAt c rest with
      | [] => [[x]]
      | part :: parts => (x :: part) :: parts

end FeedFiler.Text
