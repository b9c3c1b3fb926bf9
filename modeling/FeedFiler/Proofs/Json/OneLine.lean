import FeedFiler.Json.Printer

/-!
# Printed JSON stands on one line

No control character is part of the text of a value, so that a line feed behind the text ends it.
-/

namespace FeedFiler

theorem printable_of_all {s : List Char} (h : s.all (0x20 ≤ ·.toNat) = true) :
    ∀ c ∈ s, 0x20 ≤ c.toNat := by
  intro c hc
  exact of_decide_eq_true (List.all_eq_true.1 h c hc)

theorem isDigit_printable {c : Char} (h : c.isDigit = true) : 0x20 ≤ c.toNat := by
  simp only [Char.isDigit, Bool.and_eq_true, decide_eq_true_eq] at h
  have : (48 : UInt32).toNat ≤ c.val.toNat := h.1
  exact Nat.le_trans (by decide) this

theorem natChars_printable {n : Nat} {c : Char} (h : c ∈ natChars n) : 0x20 ≤ c.toNat :=
  isDigit_printable (Nat.isDigit_of_mem_toDigits (by decide) (by decide) h)

theorem Decimal.positional_printable {d : Decimal} {whole : List Char}
    (hw : ∀ c ∈ whole, 0x20 ≤ c.toNat) : ∀ c ∈ d.positional whole, 0x20 ≤ c.toNat := by
  intro c hc
  simp only [Decimal.positional] at hc
  split at hc
  · simp only [List.mem_append, List.mem_replicate] at hc
    rcases hc with (hc | ⟨-, rfl⟩) | hc
    · exact natChars_printable hc
    · decide
    · exact hw c hc
  · split at hc
    · simp only [List.mem_append, List.mem_singleton] at hc
      rcases hc with (hc | rfl) | hc
      · exact natChars_printable (List.mem_of_mem_take hc)
      · decide
      · exact natChars_printable (List.mem_of_mem_drop hc)
    · simp only [List.mem_append, List.mem_replicate, List.mem_cons, List.not_mem_nil, or_false] at hc
      rcases hc with ((rfl | rfl) | ⟨-, rfl⟩) | hc
      · decide
      · decide
      · decide
      · exact natChars_printable hc

theorem Decimal.scientific_printable {d : Decimal} : ∀ c ∈ d.scientific, 0x20 ≤ c.toNat := by
  intro c hc
  simp only [Decimal.scientific, List.mem_append, List.mem_cons, List.not_mem_nil, or_false] at hc
  rcases hc with (hc | rfl | rfl) | hc
  · split at hc
    · next first second rest hd =>
        have hm : ∀ c ∈ first :: second :: rest, 0x20 ≤ c.toNat := by
          rw [← hd]
          exact fun c => natChars_printable
        simp only [List.mem_cons] at hc hm
        rcases hc with rfl | rfl | hc
        · exact hm _ (.inl rfl)
        · decide
        · exact hm c (.inr hc)
    · exact natChars_printable hc
  · decide
  · split <;> decide
  · exact natChars_printable hc

theorem hexDigit_printable : ∀ n < 16, 0x20 ≤ (hexDigit n).toNat := by decide

namespace Json

theorem escape_printable {c d : Char} (h : d ∈ escape c) : 0x20 ≤ d.toNat := by
  have short {x : Char} (hx : 0x20 ≤ x.toNat) (h : d ∈ ['\\', x]) : 0x20 ≤ d.toNat := by
    simp only [List.mem_cons, List.not_mem_nil, or_false] at h
    rcases h with rfl | rfl
    · decide
    · exact hx
  unfold escape at h
  split at h
  · exact short (by decide) h
  split at h
  · exact short (by decide) h
  split at h
  · exact short (by decide) h
  split at h
  · exact short (by decide) h
  split at h
  · exact short (by decide) h
  split at h
  · exact short (by decide) h
  split at h
  · exact short (by decide) h
  split at h
  · simp only [List.mem_cons, List.not_mem_nil, or_false] at h
    rcases h with rfl | rfl | rfl | rfl | rfl | rfl
    · decide
    · decide
    · decide
    · decide
    · exact hexDigit_printable _ (by omega)
    · exact hexDigit_printable _ (by omega)
  · next hc =>
      rw [List.mem_singleton.1 h]
      omega

theorem stringChars_printable {s : String} : ∀ c ∈ stringChars s, 0x20 ≤ c.toNat := by
  intro c hc
  simp only [stringChars, List.mem_append, List.mem_cons, List.mem_flatMap, List.not_mem_nil,
    or_false] at hc
  rcases hc with (rfl | ⟨d, -, hd⟩) | rfl
  · decide
  · exact escape_printable hd
  · decide

theorem magnitudeChars_printable {x : Magnitude} : ∀ c ∈ magnitudeChars x, 0x20 ≤ c.toNat := by
  intro c hc
  simp only [magnitudeChars] at hc
  split at hc
  · exact printable_of_all (by decide) c hc
  · split at hc
    · exact Decimal.positional_printable (printable_of_all (by decide)) c hc
    · exact Decimal.scientific_printable c hc

theorem numberChars_printable {n : Number} : ∀ c ∈ numberChars n, 0x20 ≤ c.toNat := by
  intro c hc
  cases n with
  | whole w =>
      simp only [numberChars] at hc
      cases hw : w.val with
      | ofNat n => rw [hw] at hc; exact natChars_printable hc
      | negSucc n =>
          rw [hw, intChars, List.mem_cons] at hc
          rcases hc with rfl | hc
          · decide
          · exact natChars_printable hc
  | float x h =>
      simp only [numberChars, floatChars] at hc
      split at hc
      · rcases List.mem_cons.1 hc with rfl | hc
        · decide
        · exact magnitudeChars_printable c hc
      · exact magnitudeChars_printable c hc

mutual
theorem chars_printable : (v : Json) → ∀ c ∈ v.chars, 0x20 ≤ c.toNat
  | .null => printable_of_all (by decide)
  | .bool true => printable_of_all (by decide)
  | .bool false => printable_of_all (by decide)
  | .number _ => numberChars_printable
  | .string _ => stringChars_printable
  | .array items => by
      intro c hc
      simp only [chars, List.mem_append, List.mem_cons, List.not_mem_nil, or_false] at hc
      rcases hc with (rfl | hc) | rfl
      · decide
      · exact itemChars_printable items c hc
      · decide
  | .object members => by
      intro c hc
      simp only [chars, List.mem_append, List.mem_cons, List.not_mem_nil, or_false] at hc
      rcases hc with (rfl | hc) | rfl
      · decide
      · exact memberChars_printable members c hc
      · decide

theorem itemChars_printable : (items : List Json) → ∀ c ∈ itemChars items, 0x20 ≤ c.toNat
  | [] => by intro c hc; cases hc
  | [item] => chars_printable item
  | item :: next :: items => by
      intro c hc
      simp only [itemChars, List.mem_append, List.mem_cons] at hc
      rcases hc with hc | rfl | hc
      · exact chars_printable item c hc
      · decide
      · exact itemChars_printable (next :: items) c hc

theorem memberChars_printable : (members : List (String × Json)) →
    ∀ c ∈ memberChars members, 0x20 ≤ c.toNat
  | [] => by intro c hc; cases hc
  | [(key, value)] => by
      intro c hc
      simp only [memberChars, List.mem_append, List.mem_cons] at hc
      rcases hc with hc | rfl | hc
      · exact stringChars_printable c hc
      · decide
      · exact chars_printable value c hc
  | (key, value) :: next :: members => by
      intro c hc
      simp only [memberChars, List.mem_append, List.mem_cons] at hc
      rcases hc with (hc | rfl | hc) | rfl | hc
      · exact stringChars_printable c hc
      · decide
      · exact chars_printable value c hc
      · decide
      · exact memberChars_printable (next :: members) c hc
end

theorem newline_notMem_chars (v : Json) : '\n' ∉ v.chars := fun h =>
  absurd (chars_printable v '\n' h) (by decide)

end Json

end FeedFiler
