import FeedFiler.Json.Parser
import FeedFiler.Json.Printer
import FeedFiler.Proofs.Number.Digits

/-!
# Printed numbers read back

A whole number in decimal is read as the same number. What a reader of numbers makes of a text does
not depend on what follows, as long as the number does not go on there.
-/

namespace FeedFiler

namespace Json

/-! ## Texts behind a number -/

/-- A number does not go on with this text. -/
def EndsNumber (s : List Char) : Prop :=
  ∀ c ∈ s.head?, c.isDigit = false ∧ c ≠ '.' ∧ c ≠ 'e' ∧ c ≠ 'E'

theorem endsNumber_cons {c : Char} {s : List Char}
    (h : c.isDigit = false ∧ c ≠ '.' ∧ c ≠ 'e' ∧ c ≠ 'E') : EndsNumber (c :: s) := by
  intro d hd
  cases hd
  exact h

/-- A reader that takes a run of digits, of which there must be one, takes the same run before such a
text. -/
theorem someDigits_append {α : Type} {f : List Char → α} {s r rest : List Char} {x : α}
    (h : (if (takeDigits s).1.isEmpty then none else some (f (takeDigits s).1, (takeDigits s).2)) =
      some (x, r)) (hr : EndsNumber rest) :
    (if (takeDigits (s ++ rest)).1.isEmpty then none
      else some (f (takeDigits (s ++ rest)).1, (takeDigits (s ++ rest)).2)) = some (x, r ++ rest) := by
  rw [takeDigits_append s fun c hc => (hr c hc).1]
  split at h
  · cases h
  · next hd =>
      cases h
      exact if_neg hd

theorem readWhole_append {s r digits rest : List Char} (h : readWhole s = some (digits, r))
    (hr : EndsNumber rest) : readWhole (s ++ rest) = some (digits, r ++ rest) := by
  cases s with
  | nil => cases h
  | cons c s =>
      by_cases hc : c = '0'
      · subst hc
        cases h
        rfl
      · simp only [readWhole, List.cons_append, List.cons.injEq, hc, false_and, imp_self,
          implies_true] at h ⊢
        exact someDigits_append (f := id) (s := c :: s) h hr

theorem readFraction_append {s r digits rest : List Char} (h : readFraction s = some (digits, r))
    (hr : EndsNumber rest) : readFraction (s ++ rest) = some (digits, r ++ rest) := by
  cases s with
  | nil =>
      cases h
      cases rest with
      | nil => rfl
      | cons c rest => simp [readFraction, (hr c rfl).2.1]
  | cons c s =>
      by_cases hc : c = '.'
      · subst hc
        exact someDigits_append (f := id) (s := s) h hr
      · simp only [readFraction, List.cons_append, List.cons.injEq, hc, false_and, imp_self,
          implies_true] at h ⊢
        cases h
        rfl

theorem readExponent_append {s r rest : List Char} {power : Option Int}
    (h : readExponent s = some (power, r)) (hr : EndsNumber rest) :
    readExponent (s ++ rest) = some (power, r ++ rest) := by
  cases s with
  | nil =>
      cases h
      cases rest with
      | nil => rfl
      | cons c rest => simp [readExponent, (hr c rfl).2.2.1, (hr c rfl).2.2.2]
  | cons mark s =>
      simp only [readExponent, List.cons_append] at h ⊢
      split at h
      · next hm =>
          rw [if_pos hm]
          cases s with
          | nil => cases h
          | cons sign s =>
              by_cases hneg : sign = '-'
              · subst hneg
                exact someDigits_append (f := fun ds => some (-(natOfDigits ds : Int))) (s := s) h hr
              · by_cases hpos : sign = '+'
                · subst hpos
                  exact someDigits_append (f := fun ds => some (natOfDigits ds : Int)) (s := s) h hr
                · simp only [List.cons_append, hneg, hpos, List.cons.injEq, false_and, imp_self,
                    implies_true] at h ⊢
                  exact someDigits_append (f := fun ds => some (natOfDigits ds : Int))
                    (s := sign :: s) h hr
      · next hm =>
          cases h
          rw [if_neg hm]
          rfl

/-! ## Numbers -/

theorem readNumber_cons (c : Char) (s : List Char) :
    readNumber (c :: s) =
      (readWhole (if c = '-' then s else c :: s)).bind fun (whole, s) =>
        (readFraction s).bind fun (fraction, s) =>
          (readExponent s).bind fun (power, s) =>
            (numberOf? (decide (c = '-')) whole fraction power).map fun n => (n, s) := by
  by_cases hc : c = '-'
  · subst hc
    simp only [readNumber, Option.map_eq_bind]
    rfl
  · simp only [readNumber, List.cons.injEq, hc, false_and, imp_self, implies_true, ↓reduceIte, decide_false,
      Option.map_eq_bind]
    rfl

theorem readNumber_append {s r rest : List Char} {n : Number} (h : readNumber s = some (n, r))
    (hr : EndsNumber rest) : readNumber (s ++ rest) = some (n, r ++ rest) := by
  cases s with
  | nil => cases h
  | cons c s =>
      rw [readNumber_cons] at h
      rw [List.cons_append, readNumber_cons]
      simp only [Option.bind_eq_some_iff, Option.map_eq_some_iff, Prod.exists] at h
      obtain ⟨whole, s₁, h₁, fraction, s₂, h₂, power, s₃, h₃, m, hm, he⟩ := h
      cases he
      have hs : (if c = '-' then s ++ rest else c :: (s ++ rest)) =
          (if c = '-' then s else c :: s) ++ rest := by split <;> rfl
      simp only [hs, readWhole_append h₁ hr, Option.bind_some, readFraction_append h₂ hr,
        readExponent_append h₃ hr, hm, Option.map_some]

/-- A text that a number reads starts with a minus sign or a digit. -/
theorem head_of_readNumber {c : Char} {s r : List Char} {n : Number}
    (h : readNumber (c :: s) = some (n, r)) : c = '-' ∨ c.isDigit = true := by
  by_cases hc : c = '-'
  · exact .inl hc
  · right
    rw [readNumber_cons, if_neg hc] at h
    obtain ⟨⟨whole, s₁⟩, h₁, -⟩ := Option.bind_eq_some_iff.1 h
    by_cases hz : c = '0'
    · subst hz
      rfl
    · simp only [readWhole, hz, List.cons.injEq, false_and, imp_self, implies_true, takeDigits,
        List.span_eq_takeWhile_dropWhile] at h₁
      cases hd : c.isDigit with
      | true => rfl
      | false => simp [hd] at h₁

theorem readWhole_natChars (n : Nat) : readWhole (natChars n) = some (natChars n, []) := by
  obtain ⟨c, cs, hn, -⟩ := natChars_cons n
  by_cases hc : c = '0'
  · subst hc
    cases eq_zero_of_natChars hn
    rfl
  · have ht := @takeDigits_of_all (natChars n) fun _ => isDigit_of_mem_natChars
    rw [hn] at ht ⊢
    simp only [readWhole, hc, List.cons.injEq, false_and, imp_self, implies_true, ht]
    rfl

/-- Without a fraction and a power, digits are read as the whole number that they write. -/
theorem numberOf?_natChars (negative : Bool) (n : Nat) {w : WholeNumber}
    (hw : w.val = if negative then -(n : Int) else n) (h0 : negative = true → n ≠ 0) :
    numberOf? negative (natChars n) [] none = some (.whole w) := by
  have hin : WholeNumber.ofInt? (if negative then -(n : Int) else n) = some w := by
    rw [← hw, WholeNumber.ofInt?, dif_pos ⟨w.lower, w.upper⟩]
  simp only [numberOf?, natOfDigits_natChars, hin]
  cases negative with
  | false => simp
  | true => simp [h0 rfl]

theorem readNumber_intChars (w : WholeNumber) : readNumber (intChars w.val) = some (.whole w, []) := by
  cases hw : w.val with
  | ofNat n =>
      obtain ⟨c, cs, hn, hc⟩ := natChars_cons n
      have hm : c ≠ '-' := by rintro rfl; cases hc
      have hi : intChars (.ofNat n) = c :: cs := hn
      rw [hi, readNumber_cons, if_neg hm, ← hn, readWhole_natChars]
      simp [readFraction, readExponent, hm, numberOf?_natChars false n (w := w) (by rw [hw]; rfl)]
  | negSucc n =>
      rw [intChars, readNumber_cons, if_pos rfl, readWhole_natChars]
      have h := numberOf?_natChars true (n + 1) (w := w) (by rw [hw]; rfl) (by omega)
      simp [readFraction, readExponent, h]

end Json

end FeedFiler
