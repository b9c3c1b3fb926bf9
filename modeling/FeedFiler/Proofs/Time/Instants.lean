import FeedFiler.Proofs.Number.Digits
import FeedFiler.Proofs.Text.Trim
import FeedFiler.Proofs.Time.Calendar
import FeedFiler.Time.Instant

/-!
# Instants that are written and read

Every instant that is read has its nanoseconds within a second, or within the leap second of a minute. Such an
instant is written as a text that is read as the same instant, if its year has four digits.
-/

namespace FeedFiler.Instant

/-- The nanoseconds lie within the second, or within a leap second at the end of a minute. -/
def IsProper (t : Instant) : Prop :=
  t.nanos < 1000000000 ∨ t.nanos < 2000000000 ∧ t.seconds % 60 = 59

/-- The year in UTC is one of 0 to 9999. -/
def HasYear (t : Instant) : Prop := 0 ≤ t.date.year ∧ t.date.year ≤ 9999

/-- The seconds from 0000-01-01T00:00:00Z to 9999-12-31T23:59:59Z. -/
theorem hasYear_iff {t : Instant} : t.HasYear ↔ -62167219200 ≤ t.seconds ∧ t.seconds ≤ 253402300799 := by
  rw [HasYear, date, Date.year_ofDays_iff]
  omega

/-! ## What is read -/

theorem nanos_of_readNanos {s rest : List Char} {nanos : Nat} (h : readNanos s = some (nanos, rest)) :
    nanos < 1000000000 := by
  rw [readNanos.eq_def] at h
  split at h
  · next digits =>
      dsimp only at h
      split at h
      · cases h
      · cases h
        exact nanosOfFraction_lt fun _ => isDigit_of_mem_takeDigits
  · cases h
    decide

/-- An offset is a number of whole minutes. -/
theorem offset_of_readOffset {s rest : List Char} {offset : Int} (h : readOffset s = some (offset, rest)) :
    offset % 60 = 0 := by
  cases s with
  | nil => cases h
  | cons sign s =>
      rw [readOffset] at h
      by_cases hutc : sign = 'Z' ∨ sign = 'z'
      · rw [if_pos hutc] at h
        cases h
        rfl
      rw [if_neg hutc] at h
      by_cases hsign : sign = '+' ∨ sign = '-' ∨ sign = '\u2212'
      · rw [if_pos hsign] at h
        obtain ⟨⟨hours, s₁⟩, -, h⟩ := Option.bind_eq_some_iff.1 h
        obtain ⟨s₂, -, h⟩ := Option.bind_eq_some_iff.1 h
        obtain ⟨⟨minutes, s₃⟩, -, h⟩ := Option.bind_eq_some_iff.1 h
        obtain ⟨-, -, h⟩ := Option.bind_eq_some_iff.1 h
        simp only [Option.some.injEq, Prod.mk.injEq] at h
        obtain ⟨hoffset, -⟩ := h
        split at hoffset <;> omega
      · rw [if_neg hsign] at h
        cases h

theorem isProper_of_parse? {s : List Char} {t : Instant} (h : parse? s = some t) : t.IsProper := by
  obtain ⟨⟨year, s₁⟩, -, h⟩ := Option.bind_eq_some_iff.1 h
  obtain ⟨s₂, -, h⟩ := Option.bind_eq_some_iff.1 h
  obtain ⟨⟨month, s₃⟩, -, h⟩ := Option.bind_eq_some_iff.1 h
  obtain ⟨s₄, -, h⟩ := Option.bind_eq_some_iff.1 h
  obtain ⟨⟨day, s₅⟩, -, h⟩ := Option.bind_eq_some_iff.1 h
  obtain ⟨s₆, -, h⟩ := Option.bind_eq_some_iff.1 h
  obtain ⟨⟨hour, s₇⟩, -, h⟩ := Option.bind_eq_some_iff.1 h
  obtain ⟨s₈, -, h⟩ := Option.bind_eq_some_iff.1 h
  obtain ⟨⟨minute, s₉⟩, -, h⟩ := Option.bind_eq_some_iff.1 h
  obtain ⟨s₁₀, -, h⟩ := Option.bind_eq_some_iff.1 h
  obtain ⟨⟨second, s₁₁⟩, -, h⟩ := Option.bind_eq_some_iff.1 h
  obtain ⟨⟨nanos, s₁₂⟩, hnanos, h⟩ := Option.bind_eq_some_iff.1 h
  obtain ⟨⟨offset, s₁₃⟩, hoffset, h⟩ := Option.bind_eq_some_iff.1 h
  obtain ⟨-, -, ht⟩ := Option.bind_eq_some_iff.1 h
  have hlt := nanos_of_readNanos hnanos
  have hminutes := offset_of_readOffset hoffset
  cases ht
  by_cases hleap : second = 60
  · refine .inr ⟨?_, ?_⟩
    · dsimp only
      rw [if_pos hleap]
      omega
    · dsimp only
      rw [hleap]
      omega
  · refine .inl ?_
    rwa [if_neg hleap]

/-! ## What is written -/

theorem yearChars_eq {year : Int} (h : 0 ≤ year ∧ year ≤ 9999) : yearChars year = paddedChars 4 year.toNat :=
  if_pos h

theorem readNanos_fractionChars {nanos : Nat} (h : nanos < 1000000000) (rest : List Char) :
    readNanos (fractionChars nanos ++ 'Z' :: rest) = some (nanos, 'Z' :: rest) := by
  have hdigits : ∀ width n : Nat, 0 < width → width ≤ 9 → n < 10 ^ width →
      readNanos ('.' :: (paddedChars width n ++ 'Z' :: rest)) = some (n * 10 ^ (9 - width), 'Z' :: rest) := by
    intro width n hw hw9 hn
    have hne : (paddedChars width n).isEmpty = false := by
      rw [List.isEmpty_eq_false_iff, ← List.length_pos_iff, length_paddedChars hw hn]
      exact hw
    have hend : ∀ c ∈ ('Z' :: rest).head?, c.isDigit = false := by
      rintro c ⟨⟩
      rfl
    have htake : takeDigits (paddedChars width n ++ 'Z' :: rest) = (paddedChars width n, 'Z' :: rest) := by
      rw [takeDigits_append _ hend, takeDigits_of_all fun _ => isDigit_of_mem_paddedChars]
      rfl
    rw [readNanos, htake]
    simp only [hne, nanosOfFraction_paddedChars hw hw9 hn]
    rfl
  rw [fractionChars]
  split
  · next h0 => rw [h0]; rfl
  · split
    · rw [List.cons_append, hdigits 3 _ (by decide) (by decide) (by omega)]
      congr 2
      omega
    · split
      · rw [List.cons_append, hdigits 6 _ (by decide) (by decide) (by omega)]
        congr 2
        omega
      · rw [List.cons_append, hdigits 9 _ (by decide) (by decide) h]
        simp

/-- A text with all its fields in place is read as the instant of these fields. -/
theorem parse?_fields {year month day hour minute second nanos : Nat} (hyear : year < 10 ^ 4)
    (hdate : Date.isValid ⟨year, month, day⟩ = true) (hhour : hour < 24) (hminute : minute < 60)
    (hsecond : second ≤ 60) (hnanos : nanos < 1000000000) :
    parse? (paddedChars 4 year ++ '-' :: (paddedChars 2 month ++ '-' :: (paddedChars 2 day ++
      'T' :: (paddedChars 2 hour ++ ':' :: (paddedChars 2 minute ++ ':' :: (paddedChars 2 second ++
        (fractionChars nanos ++ ['Z']))))))) =
      some ⟨Date.toDays ⟨year, month, day⟩ * 86400 + hour * 3600 + minute * 60 + min second 59,
        if second = 60 then nanos + 1000000000 else nanos⟩ := by
  obtain ⟨hmonth, hday⟩ := Date.le_of_isValid hdate
  dsimp only at hmonth hday
  have htwo : ∀ n, n < 100 → ∀ rest, readFixed 2 (paddedChars 2 n ++ rest) = some (n, rest) :=
    fun n hn => readFixed_paddedChars (by decide) hn
  -- The fields are read one after the other, each up to the mark behind it.
  refine Option.bind_eq_some_iff.2 ⟨(year, _), readFixed_paddedChars (by decide) hyear _, ?_⟩
  refine Option.bind_eq_some_iff.2 ⟨_, rfl, ?_⟩
  refine Option.bind_eq_some_iff.2 ⟨(month, _), htwo month (by omega) _, ?_⟩
  refine Option.bind_eq_some_iff.2 ⟨_, rfl, ?_⟩
  refine Option.bind_eq_some_iff.2 ⟨(day, _), htwo day (by omega) _, ?_⟩
  refine Option.bind_eq_some_iff.2 ⟨_, rfl, ?_⟩
  refine Option.bind_eq_some_iff.2 ⟨(hour, _), htwo hour (by omega) _, ?_⟩
  refine Option.bind_eq_some_iff.2 ⟨_, rfl, ?_⟩
  refine Option.bind_eq_some_iff.2 ⟨(minute, _), htwo minute (by omega) _, ?_⟩
  refine Option.bind_eq_some_iff.2 ⟨_, rfl, ?_⟩
  refine Option.bind_eq_some_iff.2 ⟨(second, _), htwo second (by omega) _, ?_⟩
  refine Option.bind_eq_some_iff.2 ⟨(nanos, _), readNanos_fractionChars hnanos [], ?_⟩
  refine Option.bind_eq_some_iff.2 ⟨(0, []), rfl, ?_⟩
  refine Option.bind_eq_some_iff.2 ⟨(), if_pos ⟨rfl, hdate, hhour, hminute, hsecond⟩, ?_⟩
  simp only [Int.sub_zero]

/-- There are no blanks at the ends of a written instant. -/
theorem trim_chars {t : Instant} (hyear : t.HasYear) : Text.trim t.chars = t.chars := by
  refine Text.trim_eq_self (fun c hc => ?_) fun c hc => ?_
  · have hl : (paddedChars 4 t.date.year.toNat).length = 4 :=
      length_paddedChars (by decide) (by have := hyear.2; omega)
    simp only [chars, yearChars_eq hyear, List.append_assoc, List.cons_append] at hc
    cases hp : paddedChars 4 t.date.year.toNat with
    | nil => rw [hp] at hl; cases hl
    | cons d ds =>
        rw [hp] at hc
        cases hc
        exact Text.isBlank_of_isDigit (isDigit_of_mem_paddedChars (hp ▸ List.mem_cons_self))
  · rw [chars, List.getLast?_concat] at hc
    cases hc
    rfl

/-- **A written instant is read as the same instant.** -/
theorem parse?_chars {t : Instant} (h : t.IsProper) (hyear : t.HasYear) : parse? t.chars = some t := by
  have hvalid : t.date.isValid = true := Date.isValid_ofDays _
  have hdays : t.date.toDays = t.seconds / 86400 := Date.toDays_ofDays _
  have hdate : (⟨(t.date.year.toNat : Int), t.date.month, t.date.day⟩ : Date) = t.date := by
    rw [Int.toNat_of_nonneg hyear.1]
  let ofDay := (t.seconds % 86400).toNat
  have hofDay : ofDay < 86400 := by omega
  -- A leap second is written as the second 60, and any other one as it is.
  have hsecond : ofDay % 60 + t.nanos / 1000000000 ≤ 60 ∧
      min (ofDay % 60 + t.nanos / 1000000000) 59 = ofDay % 60 ∧
      (ofDay % 60 + t.nanos / 1000000000 = 60 ↔ 1000000000 ≤ t.nanos) ∧ t.nanos < 2000000000 := by
    rcases h with hnanos | ⟨hnanos, hlast⟩ <;> omega
  obtain ⟨hle, hmin, hleap, hnanos⟩ := hsecond
  have hchars : t.chars = paddedChars 4 t.date.year.toNat ++ '-' :: (paddedChars 2 t.date.month ++
      '-' :: (paddedChars 2 t.date.day ++ 'T' :: (paddedChars 2 (ofDay / 3600) ++
        ':' :: (paddedChars 2 (ofDay / 60 % 60) ++ ':' :: (paddedChars 2 (ofDay % 60 + t.nanos / 1000000000) ++
          (fractionChars (t.nanos % 1000000000) ++ ['Z'])))))) := by
    simp only [chars, yearChars_eq hyear, List.append_assoc, List.cons_append, ofDay]
  rw [hchars, parse?_fields (by have := hyear.2; omega) (hdate ▸ hvalid) (by omega) (by omega) hle (by omega)]
  have hseconds : t.seconds / 86400 * 86400 + ((ofDay / 3600 : Nat) : Int) * 3600 +
      ((ofDay / 60 % 60 : Nat) : Int) * 60 + ((ofDay % 60 : Nat) : Int) = t.seconds := by omega
  have hfraction : (if ofDay % 60 + t.nanos / 1000000000 = 60 then t.nanos % 1000000000 + 1000000000
      else t.nanos % 1000000000) = t.nanos := by
    split <;> omega
  rw [hdate, hdays, hmin, hseconds, hfraction]

end FeedFiler.Instant
