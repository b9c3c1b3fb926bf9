import FeedFiler.Feed.TagMapping
import FeedFiler.Proofs.Message.DayParts
import FeedFiler.Proofs.Record

/-!
# Spellings of an instant

A text for an instant is converted to the instant in UTC and to its whole seconds. All of them stand for the same
instant, and a template gives the same day for each of them.
-/

namespace FeedFiler

open Template (DayPart)

/-! ## Conversions -/

theorem TagFormat.convert?_of_parse? {s : List Char} {t : Instant} (h : Instant.parse? (Text.trim s) = some t) :
    utc.convert? s = some (.text t.render) ∧
      unixSeconds.convert? s = some (.int (Int64.ofInt t.seconds)) := by
  rw [convert?, convert?, h]
  exact ⟨rfl, rfl⟩

/-- The text of an instant in UTC is read as the instant, with or without blanks allowed around it. -/
theorem Instant.parse?_render {t : Instant} (h : t.IsProper) (hyear : t.HasYear) :
    parse? t.render.toList = some t ∧ parse? (Text.trim t.render.toList) = some t := by
  rw [render, String.toList_ofList, trim_chars hyear]
  exact ⟨parse?_chars h hyear, parse?_chars h hyear⟩

/-! ## Days of fields -/

namespace Instant

/-- A field holds the instant as this value: its seconds, or a text that is read as the instant. -/
inductive HeldAs (t : Instant) : Value → Prop
  | seconds : HeldAs t (.int (Int64.ofInt t.seconds))
  | text {u : String} (h : parse? u.toList = some t) : HeldAs t (.text u)

theorem HeldAs.dateOf {t : Instant} {v : Value} (h : t.HeldAs v) (hyear : t.HasYear) :
    Template.dateOf (some v.toJson) = t.date := by
  cases h with
  | seconds =>
      obtain ⟨hlow, hhigh⟩ := hasYear_iff.1 hyear
      have hval : (WholeNumber.ofInt64 (Int64.ofInt t.seconds)).val = t.seconds :=
        Int64.toInt_ofInt_of_le (by omega) (by omega)
      rw [Value.toJson, Json.ofInt64, Template.dateOf_whole (by rwa [hval]) (by rwa [hval]), hval, date]
  | text h => rw [Value.toJson, Template.dateOf, h, Option.getD_some]

/-- A placeholder for a part of the day gives the same text however the field holds the instant. -/
theorem HeldAs.expand_template {t : Instant} {v : Value} (h : t.HeldAs v) (hyear : t.HasYear) {part : DayPart}
    {key : List Char} (hbar : '|' ∉ key) (hclose : ¬ Template.closeMark <:+: key) {record : Document}
    (hfield : record.get? (String.ofList key) = some v.toJson) :
    Template.expand (part.template key) record = String.ofList (part.chars t.date) := by
  rw [Template.expand_template hbar hclose, hfield, h.dateOf hyear]

end Instant

/-- **All spellings of an instant agree.** A text that is read as an instant of the years 0 to 9999 in UTC is
converted to a text and to a number. Converting that text again gives the text and the number, and a
placeholder for the year, the month or the day of a field gives the same for a field with the number, with the
text in UTC, and with the text itself if there are no blanks around it. -/
theorem spellings_agree {s : List Char} {t : Instant} (h : Instant.parse? (Text.trim s) = some t)
    (hyear : t.HasYear) :
    ∃ (u : String) (n : Int64),
      TagFormat.utc.convert? s = some (.text u) ∧ TagFormat.unixSeconds.convert? s = some (.int n) ∧
      TagFormat.utc.convert? u.toList = some (.text u) ∧ TagFormat.unixSeconds.convert? u.toList = some (.int n) ∧
      ∀ (part : DayPart) (key : List Char), '|' ∉ key → ¬ Template.closeMark <:+: key →
        ∀ (record : Document) (v : Value), record.get? (String.ofList key) = some v.toJson →
          v = .int n ∨ v = .text u ∨ Text.trim s = s ∧ v = .text (String.ofList s) →
          Template.expand (part.template key) record = String.ofList (part.chars t.date) := by
  obtain ⟨hutc, hseconds⟩ := TagFormat.convert?_of_parse? h
  obtain ⟨hparse, htrim⟩ := Instant.parse?_render (Instant.isProper_of_parse? h) hyear
  obtain ⟨hutc', hseconds'⟩ := TagFormat.convert?_of_parse? htrim
  refine ⟨t.render, Int64.ofInt t.seconds, hutc, hseconds, hutc', hseconds',
    fun part key hbar hclose record v hfield hv => ?_⟩
  have hheld : t.HeldAs v := by
    rcases hv with rfl | rfl | ⟨hblanks, rfl⟩
    · exact .seconds
    · exact .text hparse
    · exact .text (by rw [String.toList_ofList, ← h, hblanks])
  exact hheld.expand_template hyear hbar hclose hfield

/-- A leap second at the end of 2016, written where the next year has begun. -/
def leapSecond : String := "2017-01-01T00:59:60.25+01:00"

theorem spellings_agree_leapSecond :
    TagFormat.utc.convert? leapSecond.toList = some (.text "2016-12-31T23:59:60.250Z") ∧
      TagFormat.unixSeconds.convert? "2016-12-31T23:59:60.250Z".toList = some (.int 1483228799) ∧
      Template.expand (DayPart.year.template ['a', 't']) [("at", .string leapSecond)] = "2016" := by
  have hparse : Instant.parse? (Text.trim leapSecond.toList) = some ⟨1483228799, 1250000000⟩ := by decide +kernel
  have hyear : Instant.HasYear ⟨1483228799, 1250000000⟩ := Instant.hasYear_iff.2 (by decide)
  have htext : TagFormat.utc.convert? leapSecond.toList = some (.text "2016-12-31T23:59:60.250Z") := by
    decide +kernel
  obtain ⟨u, n, hutc, hseconds, -, hseconds', hexpand⟩ := spellings_agree hparse hyear
  have hu : u = "2016-12-31T23:59:60.250Z" := by
    rw [htext] at hutc
    cases hutc
    rfl
  have hn : n = 1483228799 := by
    have hs : TagFormat.unixSeconds.convert? leapSecond.toList = some (.int 1483228799) := by decide +kernel
    rw [hs] at hseconds
    cases hseconds
    rfl
  refine ⟨htext, hu ▸ hn ▸ hseconds', ?_⟩
  rw [hexpand .year ['a', 't'] (by decide) (by decide) _ _ rfl (.inr (.inr ⟨by decide +kernel, rfl⟩))]
  decide +kernel

end FeedFiler
