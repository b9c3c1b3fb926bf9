import Mathlib.Data.List.TakeWhile
import FeedFiler.Text.Blank

/-!
# Blanks around a text

A text is its trimmed form between two runs of blanks, and such runs are all that trimming takes away.
-/

namespace FeedFiler.Text

variable {s front back : List Char}

/-- Every character is blank. -/
def IsBlanks (s : List Char) : Prop := ∀ c ∈ s, isBlank c = true

instance (s : List Char) : Decidable (IsBlanks s) := decidable_of_iff (s.all isBlank = true) List.all_eq_true

theorem trim_append_blanks (hf : IsBlanks front) (hb : IsBlanks back) :
    trim (front ++ s ++ back) = trim s := by
  have hback : back.dropWhile isBlank = [] := List.dropWhile_eq_nil_iff.2 hb
  rw [trim, trim, List.append_assoc, List.dropWhile_append_of_pos hf, List.dropWhile_append]
  split
  · next hs => rw [hback, List.isEmpty_iff.1 hs]
  · rw [List.reverse_append, List.dropWhile_append_of_pos fun c hc => hb c (List.mem_reverse.1 hc)]

theorem exists_eq_append_trim (s : List Char) :
    ∃ front back, s = front ++ trim s ++ back ∧ IsBlanks front ∧ IsBlanks back := by
  have hfront := List.takeWhile_append_dropWhile (p := isBlank) (l := s)
  have hback := List.takeWhile_append_dropWhile (p := isBlank) (l := (s.dropWhile isBlank).reverse)
  refine ⟨s.takeWhile isBlank, ((s.dropWhile isBlank).reverse.takeWhile isBlank).reverse, ?_,
    fun c hc => (List.all_eq_true.1 List.all_takeWhile) c hc,
    fun c hc => (List.all_eq_true.1 List.all_takeWhile) c (List.mem_reverse.1 hc)⟩
  rw [trim, List.append_assoc, ← List.reverse_append, hback, List.reverse_reverse, hfront]

/-- A text without blanks at its ends is left as it is. -/
theorem trim_eq_self (hf : ∀ c ∈ s.head?, isBlank c = false) (hl : ∀ c ∈ s.getLast?, isBlank c = false) :
    trim s = s := by
  have hdrop : s.dropWhile isBlank = s := by
    cases s with
    | nil => rfl
    | cons c s => rw [List.dropWhile_cons_of_neg (by simp [hf c rfl])]
  rw [trim, hdrop]
  cases hr : s.reverse with
  | nil => rw [← hr, List.reverse_eq_nil_iff.1 hr]; rfl
  | cons c r =>
      have hc : isBlank c = false := hl c (by rw [← List.head?_reverse, hr]; rfl)
      rw [List.dropWhile_cons_of_neg (by simp [hc]), ← hr, List.reverse_reverse]

/-- Every blank has a number below 33 or above 132. -/
theorem toNat_of_isBlank {c : Char} (h : isBlank c = true) : c.toNat < 33 ∨ 132 < c.toNat := by
  simp only [isBlank, Bool.or_eq_true, Bool.and_eq_true, decide_eq_true_eq, beq_iff_eq, Char.le_def,
    UInt32.le_iff_toNat_le] at h
  rcases h with (((((((((h | rfl) | rfl) | rfl) | rfl) | h) | rfl) | rfl) | rfl) | rfl) | rfl
  · exact .inl (Nat.lt_of_le_of_lt h.2 (by decide))
  case inl.inl.inl.inl.inl.inr => exact .inr (Nat.lt_of_lt_of_le (by decide) h.1)
  all_goals decide

theorem isBlank_of_isDigit {c : Char} (h : c.isDigit = true) : isBlank c = false := by
  refine Bool.eq_false_iff.2 fun hb => ?_
  obtain ⟨hlow, hhigh⟩ : 48 ≤ c.toNat ∧ c.toNat ≤ 57 := Char.isDigit_iff_toNat.1 h
  have := toNat_of_isBlank hb
  omega

end FeedFiler.Text
