import Mathlib.Algebra.GroupWithZero.Nat
import Mathlib.Data.List.TakeDrop
import Mathlib.Data.List.TakeWhile
import FeedFiler.Number.Reading

/-!
# Digits

The digits of a number read back as the number, with or without zeros in front. Runs of digits of one length
are in the order of their numbers.
-/

namespace FeedFiler

theorem isDigit_of_mem_natChars {n : Nat} {c : Char} (h : c ∈ natChars n) : c.isDigit = true :=
  Nat.isDigit_of_mem_toDigits (by decide) (by decide) h

/-- Only zero is written with a zero in front. -/
theorem eq_zero_of_natChars {n : Nat} {cs : List Char} (h : natChars n = '0' :: cs) : n = 0 := by
  induction n using Nat.strongRecOn generalizing cs with
  | ind n ih =>
      unfold natChars at h ih
      rw [Nat.toDigits_eq_if (by decide)] at h
      split at h
      · next hn =>
          have hd : n.digitChar = '0' := (List.cons.inj h).1
          have := Nat.toNat_digitChar_sub_48_of_lt_ten hn
          rw [hd] at this
          exact this.symm
      · next hn =>
          cases hq : Nat.toDigits 10 (n / 10) with
          | nil => exact absurd hq Nat.toDigits_ne_nil
          | cons d ds =>
              rw [hq] at h
              obtain ⟨rfl, -⟩ := List.cons.inj h
              have := ih (n / 10) (by omega) hq
              omega

theorem natChars_cons (n : Nat) : ∃ c cs, natChars n = c :: cs ∧ c.isDigit = true := by
  cases h : natChars n with
  | nil => exact absurd h Nat.toDigits_ne_nil
  | cons c cs => exact ⟨c, cs, rfl, isDigit_of_mem_natChars (by rw [h]; exact List.mem_cons_self)⟩

/-! ## The number that digits write -/

theorem natOfDigits_eq_ofDigitChars (digits : List Char) :
    natOfDigits digits = Nat.ofDigitChars 10 digits 0 := by
  simp only [natOfDigits, Nat.ofDigitChars, Nat.mul_comm 10]

theorem natOfDigits_natChars (n : Nat) : natOfDigits (natChars n) = n := by
  rw [natOfDigits_eq_ofDigitChars, natChars, Nat.ofDigitChars_ten_toDigits]

theorem natOfDigits_cons (c : Char) (digits : List Char) :
    natOfDigits (c :: digits) = (c.toNat - 48) * 10 ^ digits.length + natOfDigits digits := by
  rw [natOfDigits_eq_ofDigitChars, Nat.ofDigitChars_cons, Nat.ofDigitChars_eq_ofDigitChars_zero,
    natOfDigits_eq_ofDigitChars, Nat.mul_zero, Nat.zero_add, Nat.mul_comm]
  rfl

theorem natOfDigits_append_singleton (s : List Char) (c : Char) :
    natOfDigits (s ++ [c]) = natOfDigits s * 10 + (c.toNat - '0'.toNat) := by
  unfold natOfDigits
  rw [List.foldl_append]
  rfl

theorem natOfDigits_le_append (s digits : List Char) : natOfDigits s ≤ natOfDigits (s ++ digits) := by
  induction digits generalizing s with
  | nil => simp
  | cons c digits ih =>
      have hnext := ih (s ++ [c])
      rw [natOfDigits_append_singleton, List.append_assoc, List.singleton_append] at hnext
      omega

theorem natOfDigits_lt {digits : List Char} (h : ∀ c ∈ digits, c.isDigit = true) :
    natOfDigits digits < 10 ^ digits.length := by
  induction digits with
  | nil => decide
  | cons c digits ih =>
      obtain ⟨hc, hds⟩ := List.forall_mem_cons.1 h
      have hvalue : c.toNat - 48 ≤ 9 := Nat.sub_le_sub_right (Char.isDigit_iff_toNat.1 hc).2 48
      have hlead := Nat.mul_le_mul_right (10 ^ digits.length) hvalue
      have hrest := ih hds
      rw [natOfDigits_cons, List.length_cons, Nat.pow_succ]
      omega

/-- Runs of digits of one length are in the order of their numbers. -/
theorem lt_of_natOfDigits_lt {s t : List Char} (hs : ∀ c ∈ s, c.isDigit = true)
    (ht : ∀ c ∈ t, c.isDigit = true) (hl : s.length = t.length) (h : natOfDigits s < natOfDigits t) :
    s < t := by
  induction s generalizing t with
  | nil =>
      rw [List.eq_nil_of_length_eq_zero hl.symm] at h
      exact absurd h (Nat.lt_irrefl _)
  | cons c s ih =>
      cases t with
      | nil => cases hl
      | cons d t =>
          obtain ⟨hc, hs⟩ := List.forall_mem_cons.1 hs
          obtain ⟨hd, ht⟩ := List.forall_mem_cons.1 ht
          rw [List.length_cons, List.length_cons, Nat.add_right_cancel_iff] at hl
          rw [natOfDigits_cons, natOfDigits_cons, hl] at h
          have hc0 : 48 ≤ c.toNat := (Char.isDigit_iff_toNat.1 hc).1
          have hd0 : 48 ≤ d.toNat := (Char.isDigit_iff_toNat.1 hd).1
          rw [List.cons_lt_cons_iff]
          -- The first digits decide unless they are the same.
          rcases Nat.lt_trichotomy c.toNat d.toNat with hlt | he | hgt
          · exact .inl hlt
          · rw [he, Nat.add_lt_add_iff_left] at h
            exact .inr ⟨Char.toNat_inj.1 he, ih hs ht hl h⟩
          · have hlead := Nat.mul_le_mul_right (10 ^ t.length) (show d.toNat - 48 + 1 ≤ c.toNat - 48 by omega)
            have := natOfDigits_lt ht
            rw [Nat.add_mul] at hlead
            omega

/-! ## Zeros in front -/

theorem isDigit_of_mem_paddedChars {width n : Nat} {c : Char} (h : c ∈ paddedChars width n) :
    c.isDigit = true := by
  rcases List.mem_append.1 h with hz | hd
  · rw [(List.mem_replicate.1 hz).2]
    rfl
  · exact isDigit_of_mem_natChars hd

theorem natOfDigits_paddedChars (width n : Nat) : natOfDigits (paddedChars width n) = n := by
  rw [natOfDigits_eq_ofDigitChars, paddedChars, Nat.ofDigitChars_append, Nat.ofDigitChars_replicate_zero,
    Nat.mul_zero, ← natOfDigits_eq_ofDigitChars, natOfDigits_natChars]

theorem length_paddedChars {width n : Nat} (hw : 0 < width) (h : n < 10 ^ width) :
    (paddedChars width n).length = width := by
  have hl : (natChars n).length ≤ width := (Nat.length_toDigits_le_iff (by decide) hw).2 h
  rw [paddedChars, List.length_append, List.length_replicate]
  omega

theorem paddedChars_lt_paddedChars {width m n : Nat} (hw : 0 < width) (hn : n < 10 ^ width) (h : m < n) :
    paddedChars width m < paddedChars width n := by
  refine lt_of_natOfDigits_lt (fun _ => isDigit_of_mem_paddedChars) (fun _ => isDigit_of_mem_paddedChars) ?_ ?_
  · rw [length_paddedChars hw (Nat.lt_trans h hn), length_paddedChars hw hn]
  · rwa [natOfDigits_paddedChars, natOfDigits_paddedChars]

/-! ## Digits of a fixed number -/

theorem readFixed_paddedChars {width n : Nat} (hw : 0 < width) (h : n < 10 ^ width) (rest : List Char) :
    readFixed width (paddedChars width n ++ rest) = some (n, rest) := by
  have hl := length_paddedChars hw h
  rw [readFixed, List.take_left' hl, List.drop_left' hl, if_pos, natOfDigits_paddedChars]
  exact ⟨hl, List.all_eq_true.2 fun c => isDigit_of_mem_paddedChars⟩

/-! ## A run of digits -/

/-- A run of digits is taken to its end, whatever text follows that does not begin with a digit. -/
theorem takeDigits_append (s : List Char) {rest : List Char} (h : ∀ c ∈ rest.head?, c.isDigit = false) :
    takeDigits (s ++ rest) = ((takeDigits s).1, (takeDigits s).2 ++ rest) := by
  simp only [takeDigits, List.span_eq_takeWhile_dropWhile, Prod.mk.injEq]
  induction s with
  | nil =>
      cases rest with
      | nil => exact ⟨rfl, rfl⟩
      | cons c rest => simp [h c rfl]
  | cons c s ih => cases hc : c.isDigit <;> simp [hc, ih]

theorem takeDigits_of_all {digits : List Char} (h : ∀ c ∈ digits, c.isDigit = true) :
    takeDigits digits = (digits, []) := by
  rw [takeDigits, List.span_eq_takeWhile_dropWhile, List.takeWhile_eq_self_iff.2 h,
    List.dropWhile_eq_nil_iff.2 h]

theorem isDigit_of_mem_takeDigits {s : List Char} {c : Char} (h : c ∈ (takeDigits s).1) : c.isDigit = true := by
  rw [takeDigits, List.span_eq_takeWhile_dropWhile] at h
  exact List.all_eq_true.1 List.all_takeWhile c h

/-! ## The digits of a fraction -/

theorem natOfDigits_append_zeros (digits : List Char) (n : Nat) :
    natOfDigits (digits ++ List.replicate n '0') = natOfDigits digits * 10 ^ n := by
  rw [natOfDigits_eq_ofDigitChars, natOfDigits_eq_ofDigitChars, Nat.ofDigitChars_append,
    Nat.ofDigitChars_replicate_zero, Nat.mul_comm]

theorem nanosOfFraction_lt {digits : List Char} (h : ∀ c ∈ digits, c.isDigit = true) :
    nanosOfFraction digits < 10 ^ 9 := by
  have hlength : (digits.take 9 ++ List.replicate (9 - (digits.take 9).length) '0').length = 9 := by
    rw [List.length_append, List.length_replicate, List.length_take]
    omega
  refine Nat.lt_of_lt_of_eq (natOfDigits_lt fun c hc => ?_) (congrArg (10 ^ ·) hlength)
  rcases List.mem_append.1 hc with hd | hz
  · exact h c (List.mem_of_mem_take hd)
  · rw [(List.mem_replicate.1 hz).2]
    rfl

/-- A fraction of at most nine digits counts with all of them. -/
theorem nanosOfFraction_paddedChars {width n : Nat} (hw : 0 < width) (hw9 : width ≤ 9) (h : n < 10 ^ width) :
    nanosOfFraction (paddedChars width n) = n * 10 ^ (9 - width) := by
  have hl := length_paddedChars hw h
  rw [nanosOfFraction, List.take_of_length_le (by omega), hl, natOfDigits_append_zeros,
    natOfDigits_paddedChars]

/-! ## Numbers that are a whole text -/

theorem readNat?_eq_some_iff {s : List Char} {n : Nat} :
    readNat? s = some n ↔ s ≠ [] ∧ (∀ c ∈ s, c.isDigit = true) ∧ natOfDigits s = n := by
  cases s with
  | nil => simp [readNat?]
  | cons c s => simp [readNat?]

/-- An index is digits behind an optional plus sign. -/
theorem readIndex?_eq_some_iff {s : List Char} {n : Nat} :
    readIndex? s = some n ↔ ∃ sign digits, s = sign ++ digits ∧ (sign = [] ∨ sign = ['+']) ∧
      readNat? digits = some n ∧ n < 2 ^ 64 := by
  have hbound : n ≤ 18446744073709551615 ↔ n < 2 ^ 64 := by omega
  by_cases hs : ∃ rest, s = '+' :: rest
  · obtain ⟨rest, rfl⟩ := hs
    have hplus : readNat? ('+' :: rest) = none := by simp [readNat?, Char.isDigit]
    simp only [readIndex?, Option.filter_eq_some_iff, decide_eq_true_eq, hbound]
    constructor
    · rintro ⟨h, hn⟩
      exact ⟨['+'], rest, rfl, .inr rfl, h, hn⟩
    · rintro ⟨sign, digits, he, rfl | rfl, h, hn⟩
      · rw [List.nil_append] at he
        rw [← he, hplus] at h
        cases h
      · cases he
        exact ⟨h, hn⟩
  · have hread : readIndex? s = (readNat? s).filter (· ≤ 18446744073709551615) := by
      rw [readIndex?.eq_def]
      split
      · next rest => exact absurd ⟨rest, rfl⟩ hs
      · rfl
    simp only [hread, Option.filter_eq_some_iff, decide_eq_true_eq, hbound]
    constructor
    · rintro ⟨h, hn⟩
      exact ⟨[], s, rfl, .inl rfl, h, hn⟩
    · rintro ⟨sign, digits, rfl, rfl | rfl, h, hn⟩
      · exact ⟨h, hn⟩
      · exact absurd ⟨digits, rfl⟩ hs

end FeedFiler
