import XBook.Lib.Calendar

/-!
# The date of the system

`ClockChangeSystemDate` of `drivers/clock.c`, which is called once a second. It carries from the day
to the month behind day 30, so that it counts in months of 30 days; `system_date_iff` says for which
dates and which numbers of seconds it still comes to the right date.
-/

namespace XBook

open Calendar

/-- `struct SystemDate`, of which the seconds to the year are counted. -/
structure SystemDate where
  second : Int
  minute : Int
  hour : Int
  day : Int
  month : Int
  year : Int
  deriving DecidableEq, Repr

/-- `++` of an `int`. -/
def increment (value : Int) : Int := Int.bmod (value + 1) (2 ^ 32)

namespace SystemDate

/-- `ClockChangeSystemDate`. -/
def clockChangeSystemDate (s : SystemDate) : SystemDate :=
  if increment s.second ≥ 60 then
    if increment s.minute ≥ 60 then
      if increment s.hour ≥ 24 then
        if increment s.day > 30 then
          if increment s.month > 12 then ⟨0, 0, 0, 1, 1, increment s.year⟩
          else ⟨0, 0, 0, 1, increment s.month, s.year⟩
        else ⟨0, 0, 0, increment s.day, s.month, s.year⟩
      else ⟨0, 0, increment s.hour, s.day, s.month, s.year⟩
    else ⟨0, increment s.minute, s.hour, s.day, s.month, s.year⟩
  else ⟨increment s.second, s.minute, s.hour, s.day, s.month, s.year⟩

/-- The moment that a date stands for. -/
def moment (s : SystemDate) : Moment := ⟨⟨s.year, s.month, s.day⟩, s.hour, s.minute, s.second⟩

/-- A moment as it is stored, with the year in an `int`. -/
def ofMoment (t : Moment) : SystemDate :=
  ⟨t.second, t.minute, t.hour, t.date.day, t.date.month, Int.bmod t.date.year (2 ^ 32)⟩

/-- A date and a time of the Gregorian calendar whose year is an `int`. -/
structure Valid (s : SystemDate) : Prop where
  time : s.moment.InDay
  date : s.moment.date.Valid gregorian
  year : -2 ^ 31 ≤ s.year ∧ s.year < 2 ^ 31

/-- The days up to the moment `n` seconds later are those of a calendar with months of 30 days,
which that moment's day is in. -/
def ThirtyDayMonths (s : SystemDate) (n : Nat) : Prop :=
  let days := s.moment.midnights n
  let date := (next gregorian)^[days] s.moment.date
  days = 0 ∨ date.day ≤ 30 ∧ date.year < 2 ^ 31 ∧
    place 30 date - place 30 s.moment.date = days

/-! ## What the code counts -/

theorem increment_eq {value : Int} (hlow : -1 ≤ value) (hhigh : value < 2 ^ 31 - 1) :
    increment value = value + 1 := by
  rw [increment, Int.bmod_eq_of_le] <;> omega

theorem increment_bmod (year : Int) :
    increment (Int.bmod year (2 ^ 32)) = Int.bmod (year + 1) (2 ^ 32) := by
  rw [increment, Int.bmod_add_bmod]

/-- A stored moment is the moment, but for its year. -/
theorem eq_of_stored {t t' : Moment} (h : (ofMoment t).moment = t')
    (hyear : t.date.year = t'.date.year) : t = t' := by
  subst h
  exact Moment.ext (Date.ext hyear rfl rfl) rfl rfl rfl

/-- Each call is a tick of the calendar with months of 30 days. -/
theorem change_system_date {t : Moment} (ht : t.InDay)
    (hmonth : 1 ≤ t.date.month ∧ t.date.month ≤ 12) (hday : 1 ≤ t.date.day ∧ t.date.day ≤ 31) :
    (ofMoment t).clockChangeSystemDate = ofMoment (tick (next fun _ _ => 30) t) := by
  have hh := ht.hour
  have hm := ht.minute
  have hs := ht.second
  have hsecond : increment t.second = t.second + 1 := increment_eq (by omega) (by omega)
  have hminute : increment t.minute = t.minute + 1 := increment_eq (by omega) (by omega)
  have hhour : increment t.hour = t.hour + 1 := increment_eq (by omega) (by omega)
  have hdays : increment t.date.day = t.date.day + 1 := increment_eq (by omega) (by omega)
  have hmonths : increment t.date.month = t.date.month + 1 := increment_eq (by omega) (by omega)
  simp only [clockChangeSystemDate, ofMoment, hsecond, hminute, hhour, hdays, hmonths,
    increment_bmod, tick]
  by_cases h1 : t.second < 59
  · rw [if_neg (by omega), if_pos h1]
  · rw [if_pos (by omega), if_neg h1]
    by_cases h2 : t.minute < 59
    · rw [if_neg (by omega), if_pos h2]
    · rw [if_pos (by omega), if_neg h2]
      by_cases h3 : t.hour < 23
      · rw [if_neg (by omega), if_pos h3]
      · rw [if_pos (by omega), if_neg h3, next]
        by_cases h4 : t.date.day < 30
        · rw [if_neg (by omega), if_pos h4]
        · rw [if_pos (by omega), if_neg h4]
          by_cases h5 : t.date.month < 12
          · rw [if_neg (by omega), if_pos h5]
          · rw [if_pos (by omega), if_neg h5]

theorem Valid.day_le {s : SystemDate} (h : s.Valid) : 1 ≤ s.day ∧ s.day ≤ 31 :=
  ⟨h.date.day.1, h.date.day.2.trans (gregorian_le _ _)⟩

/-- The calls count in the calendar with months of 30 days. -/
theorem change_iterate {s : SystemDate} (h : s.Valid) (n : Nat) :
    clockChangeSystemDate^[n] s = ofMoment ((tick (next fun _ _ => 30))^[n] s.moment) := by
  induction n with
  | zero =>
      have hyear : Int.bmod s.year (2 ^ 32) = s.year := by
        have hrange := h.year
        rw [Int.bmod_eq_of_le] <;> omega
      simp only [Function.iterate_zero, id, ofMoment, moment, hyear]
  | succ n ih =>
      obtain ⟨htime, -, hdate⟩ := tick_iterate (next fun _ _ => 30) h.time n
      obtain ⟨-, hmonth, hday, hlast⟩ := place_iterate (by decide : (1 : Int) ≤ 30) h.date.month
        h.day_le.1 (s.moment.midnights n)
      have hle : ((next fun _ _ => 30)^[s.moment.midnights n] s.moment.date).day ≤ 31 := by
        by_cases hzero : s.moment.midnights n = 0
        · rw [hzero]
          exact h.day_le.2
        · exact (hlast hzero).trans (by decide)
      rw [Function.iterate_succ_apply', Function.iterate_succ_apply', ih]
      rw [← hdate] at hmonth hday hle
      exact change_system_date htime hmonth ⟨hday, hle⟩

/-- A year that is an `int` is right only where none has been lost before, since 30-day months run
ahead by less than one part in thirty. -/
theorem year_of_stored {s : SystemDate} (h : s.Valid) {days : Nat}
    (hyear : Int.bmod ((next fun _ _ => 30)^[days] s.moment.date).year (2 ^ 32) =
      ((next gregorian)^[days] s.moment.date).year) :
    ((next fun _ _ => 30)^[days] s.moment.date).year =
        ((next gregorian)^[days] s.moment.date).year ∧
      ((next gregorian)^[days] s.moment.date).year < 2 ^ 31 := by
  have hbelow : Int.bmod ((next fun _ _ => 30)^[days] s.moment.date).year (2 ^ 32) < 2 ^ 31 :=
    Int.bmod_lt (by decide)
  refine ⟨?_, hyear ▸ hbelow⟩
  have hle := @year_le_iterate (fun _ _ => 30) s.moment.date days
  have hdays := days_le gregorian_pos gregorian_le h.date days
  obtain ⟨hplace, hmonth, hday, -⟩ := place_iterate (by decide : (1 : Int) ≤ 30) h.date.month
    h.day_le.1 days
  have hdate := h.date.iterate gregorian_pos days
  have hmonths := hdate.month
  have hlast := hdate.day.2.trans (gregorian_le _ _)
  have hstart := h.date.month
  have hfirst := h.date.day.1
  have hrange : -2 ^ 31 ≤ s.moment.date.year := h.year.1
  have hmultiple : ((2 ^ 32 : Nat) : Int) ∣
      Int.bmod ((next fun _ _ => 30)^[days] s.moment.date).year (2 ^ 32) -
        ((next fun _ _ => 30)^[days] s.moment.date).year := Int.dvd_bmod_sub_self
  rw [hyear] at hmultiple
  simp only [place] at hplace
  omega

/-- Calls of `ClockChangeSystemDate` come to the right date and time exactly where the days up to it
are those of 30-day months. -/
theorem system_date_iff {s : SystemDate} (h : s.Valid) (n : Nat) :
    (clockChangeSystemDate^[n] s).moment = (tick (next gregorian))^[n] s.moment ↔
      s.ThirtyDayMonths n := by
  obtain ⟨-, -, hdate⟩ := tick_iterate (next fun _ _ => 30) h.time n
  obtain ⟨-, -, hright⟩ := tick_iterate (next gregorian) h.time n
  have hvalid := h.date.iterate gregorian_pos (s.moment.midnights n)
  have hcalendars :
      (tick (next fun _ _ => 30))^[n] s.moment = (tick (next gregorian))^[n] s.moment ↔
        s.moment.midnights n = 0 ∨
          ((next gregorian)^[s.moment.midnights n] s.moment.date).day ≤ 30 ∧
            place 30 ((next gregorian)^[s.moment.midnights n] s.moment.date) -
              place 30 s.moment.date = s.moment.midnights n := by
    rw [tick_iterate_eq_iff _ _ h.time]
    by_cases hzero : s.moment.midnights n = 0
    · rw [hzero]
      exact ⟨fun _ => .inl rfl, fun _ => rfl⟩
    · rw [equal_months_iff (by decide) h.date.month h.day_le.1 hzero hvalid.month hvalid.day.1,
        or_iff_right hzero]
  rw [change_iterate h]
  constructor
  · intro heq
    have hyear : Int.bmod ((next fun _ _ => 30)^[s.moment.midnights n] s.moment.date).year
        (2 ^ 32) = ((next gregorian)^[s.moment.midnights n] s.moment.date).year := by
      rw [← hdate, ← hright, ← heq]
      rfl
    obtain ⟨hsame, hlt⟩ := year_of_stored h hyear
    rw [← hdate, ← hright] at hsame
    exact (hcalendars.mp (eq_of_stored heq hsame)).imp_right fun hdays => ⟨hdays.1, hlt, hdays.2⟩
  · intro hmonths
    have hwhole := hcalendars.mpr (hmonths.imp_right fun hdays => ⟨hdays.1, hdays.2.2⟩)
    have hlow := h.year.1.trans (@year_le_iterate gregorian s.moment.date (s.moment.midnights n))
    have hhigh : ((next gregorian)^[s.moment.midnights n] s.moment.date).year < 2 ^ 31 := by
      rcases hmonths with hzero | hdays
      · rw [hzero]
        exact h.year.2
      · exact hdays.2.1
    rw [hwhole]
    refine Moment.ext (Date.ext ?_ rfl rfl) rfl rfl rfl
    show Int.bmod ((tick (next gregorian))^[n] s.moment).date.year (2 ^ 32) = _
    rw [hright, Int.bmod_eq_of_le] <;> omega

/-- The last day of January is followed by February in both calendars. -/
theorem february_after_january : (clockChangeSystemDate^[1] ⟨59, 59, 23, 31, 1, 2021⟩).moment =
    (tick (next gregorian))^[1] (moment ⟨59, 59, 23, 31, 1, 2021⟩) :=
  (system_date_iff ⟨⟨by decide, by decide, by decide⟩, ⟨by decide, by decide⟩, by decide⟩ 1).mpr
    (.inr (by decide))

/-- The last second of 30 January 2020 is followed by February. -/
theorem january_has_thirty_days : ¬∀ (s : SystemDate) (n : Nat), s.Valid →
    (clockChangeSystemDate^[n] s).moment = (tick (next gregorian))^[n] s.moment := by
  intro hall
  have hnext := hall ⟨59, 59, 23, 30, 1, 2020⟩ 1
    ⟨⟨by decide, by decide, by decide⟩, ⟨by decide, by decide⟩, by decide⟩
  revert hnext
  decide

end SystemDate

end XBook
