import FeedFiler.Proofs.Feed.Derived
import FeedFiler.Proofs.Text.Trim

/-!
# Blanks around a value

A page keeps the blanks around the text of an element. Floating point numbers and times are converted as if
these blanks were not there; a whole number is not converted with a blank in its text.
-/

namespace FeedFiler
open Text

variable {s front back text : List Char} {m : TagMapping}

/-! ## Whole numbers -/

theorem readNat?_of_blank (h : ∃ c ∈ s, isBlank c = true) : readNat? s = none := by
  obtain ⟨c, hc, hblank⟩ := h
  have hdigits : ¬ s.all Char.isDigit = true := by
    intro hall
    rw [isBlank_of_isDigit (List.all_eq_true.1 hall c hc)] at hblank
    cases hblank
  rw [readNat?, if_neg (by simp [List.ne_nil_of_mem hc]), if_neg hdigits]

theorem readInt64?_of_blank (h : ∃ c ∈ s, isBlank c = true) : readInt64? s = none := by
  -- a sign is not blank, so that the blank is among what should be digits
  have hsign {sign : Char} {rest : List Char} (hs : isBlank sign = false)
      (h : ∃ c ∈ sign :: rest, isBlank c = true) : readNat? rest = none := by
    obtain ⟨c, hc, hblank⟩ := h
    rcases List.mem_cons.1 hc with rfl | hc
    · rw [hs] at hblank
      cases hblank
    · exact readNat?_of_blank ⟨c, hc, hblank⟩
  unfold readInt64?
  split
  · next rest => rw [hsign (by decide) h]; rfl
  · next rest => rw [hsign (by decide) h]; rfl
  · rw [readNat?_of_blank h]; rfl

/-! ## Conversions -/

namespace TagFormat

theorem int_convert?_of_blank (h : ∃ c ∈ s, isBlank c = true) : int.convert? s = none := by
  rw [convert?, readInt64?_of_blank h]
  rfl

theorem int_convert?_append_blanks (hf : IsBlanks front) (hb : IsBlanks back) (text : List Char) :
    int.convert? (front ++ text ++ back) = if front = [] ∧ back = [] then int.convert? text else none := by
  split
  · next h => rw [h.1, h.2, List.nil_append, List.append_nil]
  · next h =>
      refine int_convert?_of_blank ?_
      rcases not_and_or.1 h with hne | hne
      · obtain ⟨c, hc⟩ := List.exists_mem_of_ne_nil front hne
        exact ⟨c, by simp [hc], hf c hc⟩
      · obtain ⟨c, hc⟩ := List.exists_mem_of_ne_nil back hne
        exact ⟨c, by simp [hc], hb c hc⟩

/-- The other conversions trim the text. -/
theorem convert?_append_blanks {format : TagFormat} (hs : format ≠ .string) (hi : format ≠ .int)
    (hf : IsBlanks front) (hb : IsBlanks back) (text : List Char) :
    format.convert? (front ++ text ++ back) = format.convert? text := by
  have htrim := trim_append_blanks (s := text) hf hb
  cases format with
  | string => exact absurd rfl hs
  | int => exact absurd rfl hi
  | float => rw [convert?, convert?, htrim]
  | utc => rw [convert?, convert?, htrim]
  | unixSeconds => rw [convert?, convert?, htrim]

end TagFormat

/-! ## Pages -/

namespace Markup

/-- A page with one record, in which one element wraps a text. -/
def elementPage (tag name text : List Char) : List Char :=
  openTag tag ++ (openTag name ++ text ++ closeTag name) ++ closeTag tag

end Markup

namespace MarkupParser
open Markup

variable {p : MarkupParser} {name : List Char}

/-- The element is a leaf with the text as it stands. -/
theorem leavesOf_elementPage (ht : IsName p.tagRecord.toList) (hn : IsName name)
    (hne : name ≠ p.tagRecord.toList) (htext : '<' ∉ text) :
    p.leavesOf (elementPage p.tagRecord.toList name text) = .ok [[⟨name, text⟩]] := by
  let body : Content := .child [] (.full name [] (.plain text)) (.plain [])
  have hbody : body.WellFormed p.tagRecord.toList :=
    ⟨List.not_mem_nil, ⟨hn, hne, ⟨.inl rfl, List.not_mem_nil, List.not_mem_nil⟩, nofun, htext⟩,
      List.not_mem_nil⟩
  have hpage : elementPage p.tagRecord.toList name text =
      pageChars p.tagRecord.toList [] [(body, [])] := by
    simp [elementPage, pageChars, body, Content.chars, Element.chars, openTag, closeTag]
  have hlead : Leads p.tagRecord.toList [] := leads_of_no_opening ht (by simp [openTag])
  have hbodies : ∀ record ∈ [(body, ([] : List Char))], record.1.WellFormed p.tagRecord.toList :=
    List.forall_mem_singleton.2 hbody
  have hsections := leaves_sections ht hbodies (List.forall_mem_singleton.2 hlead) hlead 0
  obtain ⟨part, hpart, hleaves⟩ := List.map_eq_singleton_iff.1 hsections
  rw [leavesOf, hpage, hpart]
  exact mapM_eq_ok.2 (.cons hleaves .nil)

/-- The record of one leaf holds its text, and under another name what this is converted to. -/
theorem get?_recordOf_singleton (hm : p.InForce m) (hne : m.target ≠ m.source) (text : List Char) :
    (p.recordOf [⟨m.source.toList, text⟩]).get? m.source = some (.text (String.ofList text)) ∧
      (p.recordOf [⟨m.source.toList, text⟩]).get? m.target = m.convert? text := by
  have hderived : p.derived? ⟨m.source.toList, text⟩ = (m.convert? text).map (m.target, ·) := by
    rw [derived?, String.ofList_toList, show TagMapping.find? p.mappings m.source = some m from hm]
    rfl
  have hwrite (field : String) : (p.recordOf [⟨m.source.toList, text⟩]).get? field =
      p.write? field ⟨m.source.toList, text⟩ := by
    rw [get?_recordOf]
    cases h : p.write? field ⟨m.source.toList, text⟩ <;> simp [h]
  rw [hwrite, hwrite, write?, write?, hderived, String.ofList_toList, if_pos rfl, if_neg hne.symm]
  cases m.convert? text with
  | none => exact ⟨rfl, rfl⟩
  | some value => simp [Option.filter_some, hne]

end MarkupParser

/-! ## Blanks around a text -/

namespace TagMapping
open Markup

/-- **Blanks around a text only matter for whole numbers.** Floating point numbers and both forms of a time
are converted as if there were no blanks around the text. A text with blanks around it is no whole number, so
that the blanks decide exactly where the text without them is one. Such texts do come from pages: an element that
wraps a text with blanks around it gives its record the text with the blanks, and the derived field is what this
text is converted to. -/
theorem convert?_between_blanks (m : TagMapping) (hf : IsBlanks front) (hb : IsBlanks back)
    (text : List Char) :
    (m.format ≠ .string → m.format ≠ .int → m.convert? (front ++ text ++ back) = m.convert? text) ∧
    (m.format = .int →
      m.convert? (front ++ text ++ back) = (if front = [] ∧ back = [] then m.convert? text else none) ∧
      (m.convert? (front ++ text ++ back) = m.convert? text ↔
        front = [] ∧ back = [] ∨ m.convert? text = none)) ∧
    ∀ p : MarkupParser, p.InForce m → m.target ≠ m.source → IsName p.tagRecord.toList →
      IsName m.source.toList → m.source ≠ p.tagRecord → '<' ∉ text →
      ∃ r, p.parseText (elementPage p.tagRecord.toList m.source.toList (front ++ text ++ back)) = .ok [r] ∧
        r.get? m.source = some (.text (String.ofList (front ++ text ++ back))) ∧
        r.get? m.target = m.convert? (front ++ text ++ back) := by
  refine ⟨fun hs hi => TagFormat.convert?_append_blanks hs hi hf hb text, fun hi => ?_,
    fun p hm hne ht hn hname htext => ?_⟩
  · have hpadded : m.convert? (front ++ text ++ back) =
        if front = [] ∧ back = [] then m.convert? text else none := by
      rw [convert?, convert?, hi, TagFormat.int_convert?_append_blanks hf hb]
    refine ⟨hpadded, ?_⟩
    rw [hpadded]
    split
    · next h => simp [h]
    · next h => simp only [h, false_or, eq_comm]
  · have hblank : ∀ {blanks : List Char}, IsBlanks blanks → '<' ∉ blanks :=
      fun h hmem => absurd (h _ hmem) (by decide)
    have hopens : '<' ∉ front ++ text ++ back := by simp [hblank hf, hblank hb, htext]
    have hleaves := MarkupParser.leavesOf_elementPage ht hn (fun h => hname (String.toList_inj.1 h)) hopens
    refine ⟨p.recordOf [⟨m.source.toList, front ++ text ++ back⟩], ?_,
      MarkupParser.get?_recordOf_singleton hm hne _⟩
    rw [p.parseText_eq, hleaves]
    rfl

/-- Derives the seconds of a time. -/
def timeMapping : TagMapping := ⟨"RecordedAtTime", "acp_ts", .unixSeconds⟩

/-- Derives a whole number. -/
def delayMapping : TagMapping := ⟨"Delay", "acp_delay", .int⟩

theorem convert?_between_blanks_indented :
    (∃ r, MarkupParser.parseText ⟨"r", [timeMapping]⟩
        "<r><RecordedAtTime>\n  2020-01-27T09:14:08Z\u3000</RecordedAtTime></r>".toList = .ok [r] ∧
      r.get? "RecordedAtTime" = some (.text "\n  2020-01-27T09:14:08Z\u3000") ∧
      r.get? "acp_ts" = some (.int 1580116448)) ∧
    delayMapping.convert? "\n  7\u3000".toList = none ∧
      delayMapping.convert? "\n  7\u3000".toList ≠ delayMapping.convert? "7".toList := by
  have hfront : IsBlanks "\n  ".toList := by decide
  have hback : IsBlanks "\u3000".toList := by decide
  obtain ⟨htime, -, hpage⟩ :=
    timeMapping.convert?_between_blanks hfront hback "2020-01-27T09:14:08Z".toList
  obtain ⟨r, hr, hsource, htarget⟩ :=
    hpage ⟨"r", [timeMapping]⟩ (by decide) (by decide) (by decide) (by decide) (by decide) (by decide)
  obtain ⟨-, hdelay, -⟩ := delayMapping.convert?_between_blanks hfront hback "7".toList
  obtain ⟨hnone, hdecide⟩ := hdelay rfl
  refine ⟨⟨r, hr, hsource, (htarget.trans (htime (by decide) (by decide))).trans (by decide +kernel)⟩,
    hnone.trans (if_neg (by decide)), fun h => ?_⟩
  exact absurd (hdecide.1 h) (by decide)

/-- A blank in front of a whole number decides whether it is converted. -/
theorem blank_before_number :
    ¬ ∀ (m : TagMapping) (front text back : List Char), IsBlanks front → IsBlanks back →
      m.format ≠ .string → m.convert? (front ++ text ++ back) = m.convert? text := by
  intro h
  have hblank := h delayMapping [' '] ['7'] [] (by decide) (by decide) (by decide)
  exact absurd hblank (by decide)

end TagMapping

end FeedFiler
