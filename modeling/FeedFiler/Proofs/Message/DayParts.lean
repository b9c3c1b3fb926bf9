import FeedFiler.Proofs.Message.Pieces
import FeedFiler.Proofs.Text.Octets
import FeedFiler.Proofs.Time.Instants

/-!
# Parts of a day in templates

A placeholder can ask for the year, the month or the day of a field. A directory for each day, named by these
three, comes in the order of the days.
-/

namespace FeedFiler.Template

/-- A part of a day. -/
inductive DayPart where
  | year
  | month
  | day
deriving DecidableEq, Repr

namespace DayPart

/-- The function of a placeholder that asks for the part. -/
def word : DayPart → List Char
  | year => ['y', 'y', 'y', 'y']
  | month => ['M', 'M']
  | day => ['d', 'd']

/-- The text of a placeholder that asks for the part of a field. -/
def inner (part : DayPart) (key : List Char) : List Char := key ++ '|' :: part.word

/-- The template of that placeholder alone. -/
def template (part : DayPart) (key : List Char) : String :=
  String.ofList (openMark ++ part.inner key ++ closeMark)

/-- The digits of the part. -/
def chars (date : Date) : DayPart → List Char
  | year => Instant.yearChars date.year
  | month => paddedChars 2 date.month
  | day => paddedChars 2 date.day

end DayPart

variable {part : DayPart} {key word : List Char}

/-! ## Placeholders for a part of a day -/

theorem afterLastBar_append (h : '|' ∉ word) (key : List Char) : afterLastBar (key ++ '|' :: word) = word := by
  rw [afterLastBar, List.reverse_append, List.reverse_cons, List.append_assoc, List.singleton_append,
    Text.takeWhile_append_cons (mt List.mem_reverse.1 h), List.reverse_reverse]

theorem fieldOf_append (h : '|' ∉ key) (word : List Char) :
    fieldOf (key ++ '|' :: word) = String.ofList key := by
  rw [fieldOf, Text.takeWhile_append_cons h]

/-- The placeholder gives the part of the day that its field holds. -/
theorem expand_inner (h : '|' ∉ key) (record : Document) :
    Piece.expand record (.placeholder (part.inner key)) =
      part.chars (dateOf (record.get? (String.ofList key))) := by
  have hbar : '|' ∈ part.inner key := List.mem_append_right _ List.mem_cons_self
  have hword : afterLastBar (part.inner key) = part.word :=
    afterLastBar_append (by cases part <;> decide) key
  have hfield : fieldOf (part.inner key) = String.ofList key := fieldOf_append h part.word
  rw [Piece.expand, fillingOf_of_mem hbar, hword, hfield]
  cases part <;> rfl

/-- A key closes no placeholder unless it has two braces next to each other. -/
theorem clear_inner (h : ¬ closeMark <:+: key) : Clear '\x7d' (part.inner key) := by
  constructor
  · intro hclose
    rcases infix_of_infix_append_cons (by decide) hclose with hkey | hword
    · exact h hkey
    · cases part <;> revert hword <;> decide
  · intro he
    rw [DayPart.inner, List.getLast?_append] at he
    cases part <;> cases he

theorem expand_template (hbar : '|' ∉ key) (hclose : ¬ closeMark <:+: key) (record : Document) :
    expand (part.template key) record =
      String.ofList (part.chars (dateOf (record.get? (String.ofList key)))) := by
  have hcut : IsCut [.literal [], .placeholder (part.inner key), .literal []] :=
    .cons ⟨by decide, by decide⟩ (clear_inner hclose) (.last (staysOpen_of_not_opened rfl))
  rw [hcut.expand_eq (by simp [DayPart.template, written, Piece.chars])]
  simp only [List.flatMap_cons, List.flatMap_nil, expand_inner hbar, Piece.expand_literal, List.nil_append,
    List.append_nil]

/-! ## The day of a number -/

/-- A number of seconds within the years 0 to 9999 stands for its day in UTC. -/
theorem dateOf_whole {n : WholeNumber} (hlow : -62167219200 ≤ n.val) (hhigh : n.val ≤ 253402300799) :
    dateOf (some (.number (.whole n))) = Date.ofDays (n.val / 86400) := by
  have hint : n.toInt64? = some (Int64.ofInt n.val) := by
    rw [WholeNumber.toInt64?, int64OfInt?, if_pos ⟨by omega, by omega⟩]
  have hval : (intOf (some (.number (.whole n)))).toInt = n.val := by
    rw [intOf, Number.toInt64?, hint, Option.getD_some]
    exact Int64.toInt_ofInt_of_le (by omega) (by omega)
  have hcalendar : inCalendar n.val = true := by
    simp only [inCalendar, Bool.and_eq_true, decide_eq_true_eq]
    omega
  rw [dateOf, hval, if_pos hcalendar, Instant.date]

/-! ## Directories of days -/

/-- A directory for each day, with the days of a month in one directory and the months of a year in one. -/
def dayTemplate : String := "\x7b\x7bts|yyyy\x7d\x7d/\x7b\x7bts|MM\x7d\x7d/\x7b\x7bts|dd\x7d\x7d"

/-- The directory of a day. -/
def dayChars (date : Date) : List Char :=
  DayPart.year.chars date ++ '/' :: (DayPart.month.chars date ++ '/' :: DayPart.day.chars date)

theorem expand_dayTemplate (record : Document) :
    expand dayTemplate record = String.ofList (dayChars (dateOf (record.get? "ts"))) := by
  have hcut : IsCut [.literal [], .placeholder (DayPart.year.inner ['t', 's']), .literal ['/'],
      .placeholder (DayPart.month.inner ['t', 's']), .literal ['/'],
      .placeholder (DayPart.day.inner ['t', 's']), .literal []] := by
    have hkey : ¬ closeMark <:+: ['t', 's'] := by decide
    have hslash : Clear '\x7b' ['/'] := ⟨by decide, by decide⟩
    exact .cons ⟨by decide, by decide⟩ (clear_inner hkey) (.cons hslash (clear_inner hkey)
      (.cons hslash (clear_inner hkey) (.last (staysOpen_of_not_opened rfl))))
  have hexpand (part : DayPart) : Piece.expand record (.placeholder (part.inner ['t', 's'])) =
      part.chars (dateOf (record.get? "ts")) := expand_inner (by decide) record
  rw [hcut.expand_eq (by decide)]
  simp only [List.flatMap_cons, List.flatMap_nil, hexpand, Piece.expand_literal, dayChars, List.nil_append,
    List.append_nil, List.singleton_append]

example : expand dayTemplate [("ts", .number (.whole ⟨-1, by decide, by decide⟩))] = "1969/12/31" := by
  rw [expand_dayTemplate]
  decide +kernel

/-- The parts of a day have a fixed number of digits each. -/
theorem length_chars {date : Date} (h : date.FourDigit) :
    (DayPart.year.chars date).length = 4 ∧ (DayPart.month.chars date).length = 2 ∧
      (DayPart.day.chars date).length = 2 := by
  obtain ⟨hlow, hhigh⟩ := h.year
  obtain ⟨hmonth, hday⟩ := Date.le_of_isValid h.valid
  refine ⟨?_, length_paddedChars (by decide) (by omega), length_paddedChars (by decide) (by omega)⟩
  rw [DayPart.chars, Instant.yearChars_eq h.year]
  exact length_paddedChars (by decide) (by omega)

theorem length_dayChars {date : Date} (h : date.FourDigit) : (dayChars date).length = 10 := by
  obtain ⟨hy, hm, hd⟩ := length_chars h
  simp only [dayChars, List.length_append, List.length_cons, hy, hm, hd]

theorem lt_of_mem_dayChars {date : Date} (h : date.FourDigit) {c : Char} (hc : c ∈ dayChars date) :
    c.toNat < 128 := by
  have hcases : c.isDigit = true ∨ c = '/' := by
    simp only [dayChars, DayPart.chars, Instant.yearChars_eq h.year, List.mem_append, List.mem_cons] at hc
    rcases hc with hc | hc | hc | hc | hc
    · exact .inl (isDigit_of_mem_paddedChars hc)
    · exact .inr hc
    · exact .inl (isDigit_of_mem_paddedChars hc)
    · exact .inr hc
    · exact .inl (isDigit_of_mem_paddedChars hc)
  rcases hcases with hdigit | rfl
  · exact Nat.lt_of_le_of_lt (Char.isDigit_iff_toNat.1 hdigit).2 (by decide)
  · decide

/-- Texts of one length that differ are compared without what stands behind them. -/
theorem append_lt_append {s t : List Char} (hl : s.length = t.length) (h : s < t) (u v : List Char) :
    s ++ u < t ++ v := by
  induction s generalizing t with
  | nil =>
      rw [List.eq_nil_of_length_eq_zero hl.symm] at h
      exact absurd h (List.lt_irrefl _)
  | cons c s ih =>
      cases t with
      | nil => cases hl
      | cons d t =>
          rw [List.cons_append, List.cons_append, List.cons_lt_cons_iff]
          rcases List.cons_lt_cons_iff.1 h with hlt | ⟨he, hlt⟩
          · exact .inl hlt
          · exact .inr ⟨he, ih (Nat.succ.inj hl) hlt⟩

/-- Days in their order have directories in their order. -/
theorem dayChars_lt_dayChars {d e : Date} (hd : d.FourDigit) (he : e.FourDigit) (h : d.Before e) :
    dayChars d < dayChars e := by
  obtain ⟨hmonth, hday⟩ := Date.le_of_isValid he.valid
  obtain ⟨hdy, hdm, -⟩ := length_chars hd
  obtain ⟨hey, hem, -⟩ := length_chars he
  -- The first part that differs decides, and the parts in front of it are the same text.
  rcases h with hlt | ⟨hyear, h⟩
  · refine append_lt_append (hdy.trans hey.symm) ?_ _ _
    obtain ⟨hlow, -⟩ := hd.year
    obtain ⟨-, hhigh⟩ := he.year
    rw [DayPart.chars, DayPart.chars, Instant.yearChars_eq hd.year, Instant.yearChars_eq he.year]
    exact paddedChars_lt_paddedChars (by decide) (by omega) (by omega)
  · have hsame : DayPart.year.chars d = DayPart.year.chars e := congrArg Instant.yearChars hyear
    rw [dayChars, dayChars, hsame]
    refine List.append_left_lt (List.cons_lt_cons_iff.2 (.inr ⟨rfl, ?_⟩))
    rcases h with hlt | ⟨hmonths, hlt⟩
    · exact append_lt_append (hdm.trans hem.symm) (paddedChars_lt_paddedChars (by decide) (by omega) hlt) _ _
    · have hsame : DayPart.month.chars d = DayPart.month.chars e := congrArg (paddedChars 2) hmonths
      rw [hsame]
      refine List.append_left_lt (List.cons_lt_cons_iff.2 (.inr ⟨rfl, ?_⟩))
      exact paddedChars_lt_paddedChars (by decide) (by omega) hlt

/-- **Directories of days are in the order of time, one for each day in UTC.** For numbers of seconds from
0000-01-01T00:00:00Z to 9999-12-31T23:59:59Z the directory has ten characters, a later number has no smaller
octets, and two numbers have one directory exactly if they lie in one day. -/
theorem dayTemplate_in_order {m n : WholeNumber} {r s : Document}
    (hr : r.get? "ts" = some (.number (.whole m))) (hs : s.get? "ts" = some (.number (.whole n)))
    (hlow : -62167219200 ≤ m.val) (hle : m.val ≤ n.val) (hhigh : n.val ≤ 253402300799) :
    (expand dayTemplate r).length = 10 ∧ (expand dayTemplate s).length = 10 ∧
      Text.octets (expand dayTemplate r).toList ≤ Text.octets (expand dayTemplate s).toList ∧
      (expand dayTemplate r = expand dayTemplate s ↔ m.val / 86400 = n.val / 86400) := by
  have hm := Date.fourDigit_ofDays (show -719528 ≤ m.val / 86400 by omega) (by omega)
  have hn := Date.fourDigit_ofDays (show -719528 ≤ n.val / 86400 by omega) (by omega)
  rw [expand_dayTemplate, expand_dayTemplate, hr, hs, dateOf_whole hlow (by omega), dateOf_whole (by omega) hhigh,
    String.length_ofList, String.length_ofList, String.toList_ofList, String.toList_ofList, String.ofList_inj]
  refine ⟨length_dayChars hm, length_dayChars hn, ?_⟩
  rcases Int.lt_or_eq_of_le (Int.ediv_le_ediv (by decide : (0 : Int) < 86400) hle) with hlt | he
  · have hbefore := dayChars_lt_dayChars hm hn (Date.ofDays_before_ofDays hlt)
    refine ⟨List.le_of_lt ?_, ?_⟩
    · exact Text.octets_lt_octets (fun _ => lt_of_mem_dayChars hm) (fun _ => lt_of_mem_dayChars hn) hbefore
    · exact iff_of_false (fun h => List.lt_irrefl _ (h ▸ hbefore)) (Int.ne_of_lt hlt)
  · rw [he]
    exact ⟨List.le_refl _, iff_of_true rfl rfl⟩

/-- A record with nothing but its time. -/
def stamped (n : WholeNumber) : Document := [("ts", .number (.whole n))]

/-- The last second before 1970 is filed with the first one of its day, and before 1970. -/
theorem dayTemplate_in_order_1970 :
    let first := stamped ⟨-86400, by decide, by decide⟩
    let last := stamped ⟨-1, by decide, by decide⟩
    let next := stamped ⟨0, by decide, by decide⟩
    expand dayTemplate first = expand dayTemplate last ∧ expand dayTemplate last ≠ expand dayTemplate next ∧
      Text.octets (expand dayTemplate last).toList ≤ Text.octets (expand dayTemplate next).toList := by
  intro first last next
  have hget (n : WholeNumber) : (stamped n).get? "ts" = some (.number (.whole n)) := rfl
  obtain ⟨-, -, -, hday⟩ := dayTemplate_in_order (hget ⟨-86400, by decide, by decide⟩)
    (hget ⟨-1, by decide, by decide⟩) (by decide) (by decide) (by decide)
  obtain ⟨-, -, hle, hnext⟩ := dayTemplate_in_order (hget ⟨-1, by decide, by decide⟩)
    (hget ⟨0, by decide, by decide⟩) (by decide) (by decide) (by decide)
  exact ⟨hday.2 (by decide), fun h => absurd (hnext.1 h) (by decide), hle⟩

end FeedFiler.Template
