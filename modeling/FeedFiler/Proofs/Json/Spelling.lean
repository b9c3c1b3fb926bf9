import FeedFiler.Proofs.Json.Numbers
import FeedFiler.Value

/-!
# How numbers are spelled

The spelling of a number decides what it becomes as a value. Without a fraction and a power it becomes a
whole number if that fits 64 signed bits; any other spelling, also a zero with a minus sign, becomes the
double that its digits and its power of ten give.
-/

namespace FeedFiler

namespace Json

/-- The parts of a number as it is spelled. -/
structure Spelling where
  negative : Bool
  whole : List Char
  fraction : List Char
  power : Option Int

/-- A number, without its value. -/
def readSpelling (s : List Char) : Option (Spelling × List Char) := do
  let (negative, s) := match s with
    | '-' :: rest => (true, rest)
    | _ => (false, s)
  let (whole, s) ← readWhole s
  let (fraction, s) ← readFraction s
  let (power, s) ← readExponent s
  some (⟨negative, whole, fraction, power⟩, s)

namespace Spelling

/-- The number, if it is in the range of doubles. -/
def number? (p : Spelling) : Option Number := numberOf? p.negative p.whole p.fraction p.power

/-- There is no fraction, no power, and no minus sign before a zero. -/
def IsWhole (p : Spelling) : Prop :=
  p.fraction = [] ∧ p.power = none ∧ ¬ (p.negative = true ∧ natOfDigits p.whole = 0)

instance (p : Spelling) : Decidable p.IsWhole := inferInstanceAs (Decidable (_ ∧ _ ∧ ¬ _))

/-- The integer that sign and digits write. -/
def integer (p : Spelling) : Int := if p.negative then -(natOfDigits p.whole : Int) else natOfDigits p.whole

/-- The digits that count with their power of ten. -/
def decimal (p : Spelling) : Decimal := countedDecimal p.whole p.fraction (p.power.getD 0)

/-- The double of the digits that count, with the sign. -/
def double (p : Spelling) : Float := if p.negative then -scaledFloat p.decimal else scaledFloat p.decimal

end Spelling

theorem readNumber_eq (s : List Char) :
    readNumber s = (readSpelling s).bind fun (p, rest) => p.number?.map fun n => (n, rest) := by
  simp only [readNumber, readSpelling, Spelling.number?, Option.bind_eq_bind, Option.bind_assoc, Option.bind_some,
    Option.map_eq_bind]
  rfl

theorem eq_float_of_finite? {x : Float} {n : Number} (h : finite? x = some n) : ∃ hx, n = .float x hx := by
  rw [finite?] at h
  split at h
  · next hx =>
      cases h
      exact ⟨hx, rfl⟩
  · cases h

theorem val_of_ofInt? {n : Int} {w : WholeNumber} (h : WholeNumber.ofInt? n = some w) : w.val = n := by
  rw [WholeNumber.ofInt?] at h
  split at h
  · cases h
    rfl
  · cases h

theorem ofInt?_eq_none_iff {n : Int} :
    WholeNumber.ofInt? n = none ↔ n < -9223372036854775808 ∨ 18446744073709551615 < n := by
  rw [WholeNumber.ofInt?]
  split
  · next h => simp; omega
  · next h => simp; omega

/-- What the spelling of a number tells of it. -/
theorem Spelling.number?_cases {p : Spelling} {n : Number} (h : p.number? = some n) :
    (p.IsWhole ∧ ∃ w : WholeNumber, w.val = p.integer ∧ n = .whole w) ∨
      ((p.IsWhole → p.integer < -9223372036854775808 ∨ 18446744073709551615 < p.integer) ∧
        ∃ hx, n = .float p.double hx) := by
  obtain ⟨negative, whole, fraction, power⟩ := p
  simp only [number?, numberOf?, List.isEmpty_iff, Option.isNone_iff_eq_none] at h
  split at h
  · next hw =>
      have hwhole : IsWhole ⟨negative, whole, fraction, power⟩ := hw
      split at h
      · next w hint =>
          cases h
          exact .inl ⟨hwhole, w, val_of_ofInt? hint, rfl⟩
      · next hint => exact .inr ⟨fun _ => ofInt?_eq_none_iff.1 hint, eq_float_of_finite? h⟩
  · next hw => exact .inr ⟨fun hwhole => absurd hwhole hw, eq_float_of_finite? h⟩

end Json

/-! ## Digits that count -/

namespace Json

variable {whole fraction : List Char}

/-- Digits that make a number of 64 bits with those in front of them are all taken in. -/
theorem takeIn_of_le {s digits : List Char} (h : natOfDigits (s ++ digits) ≤ 18446744073709551615) :
    takeIn (natOfDigits s) digits = (natOfDigits (s ++ digits), []) := by
  induction digits generalizing s with
  | nil => simp [takeIn]
  | cons c digits ih =>
      have happend : s ++ c :: digits = (s ++ [c]) ++ digits := by simp
      rw [happend] at h ⊢
      have hnext := Nat.le_trans (natOfDigits_le_append (s ++ [c]) digits) h
      rw [natOfDigits_append_singleton] at hnext
      unfold takeIn
      simp only [if_pos hnext]
      rw [← natOfDigits_append_singleton]
      apply ih h

/-- A decimal whose digits make a number of 64 bits keeps all of them. -/
theorem countedDecimal_of_le (h : natOfDigits (whole ++ fraction) ≤ 18446744073709551615) (power : Int) :
    countedDecimal whole fraction power = ⟨natOfDigits (whole ++ fraction), power - fraction.length⟩ := by
  have hwhole : takeIn 0 whole = (natOfDigits whole, []) :=
    takeIn_of_le (s := []) (Nat.le_trans (natOfDigits_le_append whole fraction) h)
  simp [countedDecimal, hwhole, takeIn_of_le h]

end Json

/-- A whole number of 64 bits above the signed ones is spelled with digits that all count. -/
theorem Json.Spelling.IsWhole.ofInt_integer {p : Json.Spelling} (h : p.IsWhole)
    (hlow : 9223372036854775807 < p.integer) (hhigh : p.integer ≤ 18446744073709551615) :
    Float.ofInt p.integer = p.double := by
  obtain ⟨negative, whole, fraction, power⟩ := p
  obtain ⟨rfl, rfl, -⟩ := h
  cases negative with
  | true =>
      simp only [integer, ↓reduceIte] at hlow
      omega
  | false =>
      simp only [integer, Bool.false_eq_true, ↓reduceIte] at hlow hhigh ⊢
      have hcounted : countedDecimal whole [] 0 = ⟨natOfDigits whole, 0⟩ := by
        rw [countedDecimal_of_le (by rw [List.append_nil]; omega)]
        simp
      simp only [double, decimal, Bool.false_eq_true, ↓reduceIte, Option.getD_none, hcounted]
      rfl

namespace Value

/-- The value of a number as it is spelled: the whole number if it has 64 signed bits, or else the double of
the digits that count. -/
def ofSpelling (p : Json.Spelling) : Value :=
  if p.IsWhole ∧ -9223372036854775808 ≤ p.integer ∧ p.integer ≤ 9223372036854775807 then
    .int (Int64.ofInt p.integer)
  else .float p.double

/-- A number becomes what its spelling says. -/
theorem ofJson?_of_spelling {p : Json.Spelling} {n : Number} (h : p.number? = some n) :
    ofJson? (.number n) = some (ofSpelling p) := by
  rcases p.number?_cases h with ⟨hw, w, hval, rfl⟩ | ⟨hlarge, hx, rfl⟩
  · simp only [ofJson?, Number.toInt64?, WholeNumber.toInt64?, int64OfInt?, hval, ofSpelling]
    by_cases hfits : -9223372036854775808 ≤ p.integer ∧ p.integer ≤ 9223372036854775807
    · rw [if_pos hfits, if_pos ⟨hw, hfits⟩]
    · have hlarge : 9223372036854775807 < p.integer := by
        have hlow := w.lower
        omega
      have hdouble : Float.ofInt w.val = p.double := by
        rw [hval]
        exact hw.ofInt_integer hlarge (hval ▸ w.upper)
      rw [if_neg hfits, if_neg fun h => hfits h.2, ← hdouble]
      rfl
  · have hno : ¬ (p.IsWhole ∧ -9223372036854775808 ≤ p.integer ∧ p.integer ≤ 9223372036854775807) := by
      rintro ⟨hw, hlow, hhigh⟩
      have := hlarge hw
      omega
    rw [ofSpelling, if_neg hno]
    rfl

end Value

end FeedFiler
