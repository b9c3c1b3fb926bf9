import FeedFiler.Time.Calendar

/-!
# Days and their dates

The date of a day is a date of the calendar and counts back to the day. Days in their order have dates in their
order.
-/

namespace FeedFiler.Date

/-! ## Dates of the calendar -/

theorem isLeap_iff {year : Int} : isLeap year = true ↔ year % 4 = 0 ∧ (year % 100 ≠ 0 ∨ year % 400 = 0) := by
  simp [isLeap]

theorem isValid_iff {d : Date} : d.isValid = true ↔
    1 ≤ d.month ∧ d.month ≤ 12 ∧ 1 ≤ d.day ∧ d.day ≤ daysInMonth d.year d.month := by
  simp [isValid, and_assoc]

theorem daysInMonth_le (year : Int) (month : Nat) : daysInMonth year month ≤ 31 := by
  unfold daysInMonth
  split
  · split <;> omega
  · split <;> omega

/-- A date without its year fits two digits for the month and two for the day. -/
theorem le_of_isValid {d : Date} (h : d.isValid = true) : d.month ≤ 12 ∧ d.day ≤ 31 := by
  obtain ⟨-, hmonth, -, hday⟩ := isValid_iff.1 h
  exact ⟨hmonth, Nat.le_trans hday (daysInMonth_le _ _)⟩

/-! ## Years from March on -/

/-- The number of days from 1 March of the year 0 to 1 March of a year. -/
def marchFirst (year : Int) : Int := 365 * year + year / 4 - year / 100 + year / 400

/-- The number of days of a cycle of 400 years, without the leap days. -/
def withoutLeapDays (day : Int) : Int := day - day / 1460 + day / 36524 - day / 146096

theorem withoutLeapDays_mono {a b : Int} (h : a ≤ b) : withoutLeapDays a ≤ withoutLeapDays b := by
  unfold withoutLeapDays
  omega

/-- Without the leap days each year of a cycle has 365 days. -/
theorem withoutLeapDays_year : ∀ year : Nat, year < 400 →
    withoutLeapDays (marchFirst (year + 1) - 1) < 365 * (year + 1) ∧
      365 * (year + 1) ≤ withoutLeapDays (marchFirst (year + 1)) := by
  decide +kernel

/-- The year to which a day of a cycle belongs. -/
theorem year_bounds {day year : Int} (h0 : 0 ≤ day) (h1 : day < 146097)
    (hy : year = withoutLeapDays day / 365) :
    0 ≤ year ∧ year < 400 ∧ marchFirst year ≤ day ∧ day < marchFirst (year + 1) := by
  have hlow : 0 ≤ withoutLeapDays day := withoutLeapDays_mono h0
  have hhigh : withoutLeapDays day ≤ 145999 := withoutLeapDays_mono (Int.le_sub_one_of_lt h1)
  obtain ⟨n, rfl⟩ := Int.eq_ofNat_of_zero_le (show 0 ≤ year by omega)
  have hn : n < 400 := by omega
  refine ⟨by omega, by omega, ?_, ?_⟩
  -- A day before the year or after it would have a smaller or a greater number without the leap days.
  · refine Int.not_lt.1 fun hlt => ?_
    cases n with
    | zero => exact absurd hlt (Int.not_lt.2 h0)
    | succ k =>
        have hend := (withoutLeapDays_year k (by omega)).1
        have := withoutLeapDays_mono (Int.le_sub_one_of_lt hlt)
        push_cast at this
        omega
  · refine Int.not_le.1 fun hge => ?_
    have hstart := (withoutLeapDays_year n hn).2
    have := withoutLeapDays_mono hge
    omega

/-- The date of a day of a year, both counted from 1 March on. -/
def ofMarch (year dayOfYear : Int) : Date :=
  let month := (5 * dayOfYear + 2) / 153
  let day := dayOfYear - (153 * month + 2) / 5 + 1
  if month < 10 then ⟨year, (month + 3).toNat, day.toNat⟩ else ⟨year + 1, (month - 9).toNat, day.toNat⟩

theorem toDays_ofMarch {year dayOfYear : Int} (h0 : 0 ≤ dayOfYear) (h1 : dayOfYear ≤ 365) :
    (ofMarch year dayOfYear).toDays = marchFirst year + dayOfYear - 719468 := by
  unfold ofMarch toDays marchFirst
  dsimp only
  split <;> dsimp only <;> split <;> omega

theorem isValid_ofMarch {year dayOfYear : Int} (h0 : 0 ≤ dayOfYear)
    (h1 : dayOfYear < marchFirst (year + 1) - marchFirst year) : (ofMarch year dayOfYear).isValid = true := by
  unfold marchFirst at h1
  rw [isValid_iff]
  simp only [daysInMonth, isLeap_iff, ofMarch]
  split <;> dsimp only <;> refine ⟨by omega, by omega, by omega, ?_⟩ <;> split
  · omega
  · split <;> omega
  · split <;> omega
  · split <;> omega

theorem marchFirst_add_cycles (year cycles : Int) :
    marchFirst (year + cycles * 400) = marchFirst year + cycles * 146097 := by
  unfold marchFirst
  omega

/-- Every day is a day of a year that begins in March. -/
theorem exists_ofMarch (days : Int) : ∃ year dayOfYear, ofDays days = ofMarch year dayOfYear ∧
    0 ≤ dayOfYear ∧ dayOfYear < marchFirst (year + 1) - marchFirst year ∧
    days + 719468 = marchFirst year + dayOfYear := by
  let cycles := (days + 719468) / 146097
  let day := days + 719468 - cycles * 146097
  let year := withoutLeapDays day / 365
  obtain ⟨hlow, hhigh, hstart, hend⟩ := year_bounds (show 0 ≤ day by omega) (by omega) (rfl : year = _)
  have hday : day - (365 * year + year / 4 - year / 100) = day - marchFirst year := by
    unfold marchFirst
    omega
  refine ⟨year + cycles * 400, day - marchFirst year, ?_, ?_, ?_, ?_⟩
  · rw [← hday]
    rfl
  · omega
  · rw [Int.add_right_comm, marchFirst_add_cycles, marchFirst_add_cycles]
    omega
  · rw [marchFirst_add_cycles]
    omega

theorem isValid_ofDays (days : Int) : (ofDays days).isValid = true := by
  obtain ⟨year, dayOfYear, h, h0, h1, -⟩ := exists_ofMarch days
  rw [h]
  exact isValid_ofMarch h0 h1

/-- The date of a day counts back to the day. -/
theorem toDays_ofDays (days : Int) : (ofDays days).toDays = days := by
  obtain ⟨year, dayOfYear, h, h0, h1, hdays⟩ := exists_ofMarch days
  rw [h, toDays_ofMarch h0 (by unfold marchFirst at h1; omega)]
  omega

/-! ## The order of dates -/

/-- A date is earlier than another one. -/
def Before (d e : Date) : Prop :=
  d.year < e.year ∨ d.year = e.year ∧ (d.month < e.month ∨ d.month = e.month ∧ d.day < e.day)

theorem toDays_eq (d : Date) : d.toDays =
    if d.month ≤ 2 then marchFirst (d.year - 1) + (153 * (d.month + 9) + 2) / 5 + d.day - 719469
    else marchFirst d.year + (153 * (d.month - 3) + 2) / 5 + d.day - 719469 := by
  unfold toDays marchFirst
  dsimp only
  split <;> omega

/-- From March on, no month reaches into the next one. -/
theorem daysInMonth_le_of_lt {m n : Nat} (year : Int) (hm : 3 ≤ m) (hn : n ≤ 12) (h : m < n) :
    (153 * ((m : Int) - 3) + 2) / 5 + daysInMonth year m ≤ (153 * ((n : Int) - 3) + 2) / 5 := by
  have hnext : (153 * ((m : Int) - 3) + 2) / 5 + daysInMonth year m ≤ (153 * ((m : Int) + 1 - 3) + 2) / 5 := by
    have hmonth : m = 3 ∨ m = 4 ∨ m = 5 ∨ m = 6 ∨ m = 7 ∨ m = 8 ∨ m = 9 ∨ m = 10 ∨ m = 11 := by omega
    rcases hmonth with rfl | rfl | rfl | rfl | rfl | rfl | rfl | rfl | rfl <;> simp [daysInMonth]
  omega

theorem day_le_of_february {d : Date} (h : d.isValid = true) (hm : d.month = 2) :
    d.day ≤ 28 ∨ isLeap d.year = true ∧ d.day ≤ 29 := by
  obtain ⟨-, -, -, hday⟩ := isValid_iff.1 h
  rw [hm, daysInMonth, if_pos rfl] at hday
  split at hday
  · next hleap => exact .inr ⟨hleap, hday⟩
  · exact .inl hday

theorem toDays_lt_toDays {d e : Date} (hd : d.isValid = true) (he : e.isValid = true) (h : d.Before e) :
    d.toDays < e.toDays := by
  obtain ⟨hd1, hd12, -, hday⟩ := isValid_iff.1 hd
  obtain ⟨he1, he12, hfirst, -⟩ := isValid_iff.1 he
  have h31 := daysInMonth_le d.year d.month
  rw [toDays_eq, toDays_eq]
  rcases h with hyear | ⟨hyear, hmonth | ⟨hmonth, hlt⟩⟩
  · unfold marchFirst
    split <;> split <;> omega
  · rw [hyear] at hday h31 ⊢
    by_cases hd3 : 3 ≤ d.month
    · have := daysInMonth_le_of_lt e.year hd3 he12 hmonth
      rw [if_neg (by omega), if_neg (by omega)]
      omega
    · rw [if_pos (by omega)]
      split
      · omega
      · -- The leap day is the last one before March.
        have hfebruary := day_le_of_february hd
        rw [isLeap_iff, hyear] at hfebruary
        unfold marchFirst
        omega
  · rw [hyear, hmonth]
    split <;> omega

theorem before_trichotomy (d e : Date) : d.Before e ∨ d = e ∨ e.Before d := by
  rcases Int.lt_trichotomy d.year e.year with hlt | hy | hgt
  · exact .inl (.inl hlt)
  · rcases Nat.lt_trichotomy d.month e.month with hlt | hm | hgt
    · exact .inl (.inr ⟨hy, .inl hlt⟩)
    · rcases Nat.lt_trichotomy d.day e.day with hlt | hd | hgt
      · exact .inl (.inr ⟨hy, .inr ⟨hm, hlt⟩⟩)
      · obtain ⟨year, month, day⟩ := d
        cases hy
        cases hm
        cases hd
        exact .inr (.inl rfl)
      · exact .inr (.inr (.inr ⟨hy.symm, .inr ⟨hm.symm, hgt⟩⟩))
    · exact .inr (.inr (.inr ⟨hy.symm, .inl hgt⟩))
  · exact .inr (.inr (.inl hgt))

/-- Days in their order have dates in their order. -/
theorem ofDays_before_ofDays {m n : Int} (h : m < n) : (ofDays m).Before (ofDays n) := by
  rcases before_trichotomy (ofDays m) (ofDays n) with hlt | he | hgt
  · exact hlt
  · have := congrArg toDays he
    rw [toDays_ofDays, toDays_ofDays] at this
    omega
  · have := toDays_lt_toDays (isValid_ofDays n) (isValid_ofDays m) hgt
    rw [toDays_ofDays, toDays_ofDays] at this
    omega

theorem year_ofDays_mono {m n : Int} (h : m ≤ n) : (ofDays m).year ≤ (ofDays n).year := by
  rcases Int.lt_or_eq_of_le h with hlt | rfl
  · rcases ofDays_before_ofDays hlt with hy | ⟨hy, -⟩ <;> omega
  · exact Int.le_refl _

/-- A date of the calendar in one of the years 0 to 9999. -/
structure FourDigit (d : Date) : Prop where
  valid : d.isValid = true
  year : 0 ≤ d.year ∧ d.year ≤ 9999

/-- The days of the years that have four digits. -/
theorem year_ofDays_iff {n : Int} :
    0 ≤ (ofDays n).year ∧ (ofDays n).year ≤ 9999 ↔ -719528 ≤ n ∧ n ≤ 2932896 := by
  have hbefore : (ofDays (-719529)).year = -1 := by decide
  have hfirst : (ofDays (-719528)).year = 0 := by decide
  have hlast : (ofDays 2932896).year = 9999 := by decide
  have hafter : (ofDays 2932897).year = 10000 := by decide
  constructor
  · rintro ⟨h0, h9999⟩
    constructor
    · refine Int.not_lt.1 fun hlt => ?_
      have := year_ofDays_mono (show n ≤ -719529 by omega)
      omega
    · refine Int.not_lt.1 fun hlt => ?_
      have := year_ofDays_mono (show 2932897 ≤ n by omega)
      omega
  · rintro ⟨hlow, hhigh⟩
    have := year_ofDays_mono hlow
    have := year_ofDays_mono hhigh
    omega

theorem fourDigit_ofDays {n : Int} (hlow : -719528 ≤ n) (hhigh : n ≤ 2932896) : (ofDays n).FourDigit where
  valid := isValid_ofDays n
  year := year_ofDays_iff.2 ⟨hlow, hhigh⟩

end FeedFiler.Date
