import Mathlib.Logic.Function.Iterate
import Mathlib.Tactic.Ring
import Mathlib.Tactic.Linarith

/-!
# Calendars by the lengths of their months

A calendar of twelve months is the function that gives their lengths. `next` is the day behind a
day and `tick` the second behind a second. `tick_iterate` says that the date after some seconds is
the one after the midnights in them, so that two calendars are compared by their days alone.
`equal_months_iff` says when a calendar whose months all have the same length comes to a given day.
-/

namespace Calendar

/-- A day. -/
@[ext]
structure Date where
  year : Int
  month : Int
  day : Int
  deriving DecidableEq, Repr

/-- A second of a day. -/
@[ext]
structure Moment where
  date : Date
  hour : Int
  minute : Int
  second : Int
  deriving DecidableEq, Repr

/-- The leap years of the Gregorian calendar. -/
def IsLeap (year : Int) : Prop := year % 4 = 0 ∧ (year % 100 ≠ 0 ∨ year % 400 = 0)

instance (year : Int) : Decidable (IsLeap year) := inferInstanceAs (Decidable (_ ∧ _))

/-- The months of the Gregorian calendar. -/
def gregorian (year month : Int) : Int :=
  if month = 2 then if IsLeap year then 29 else 28
  else if month = 4 ∨ month = 6 ∨ month = 9 ∨ month = 11 then 30
  else 31

/-- The month is one of the twelve, and the day one of its days. -/
structure Date.Valid (length : Int → Int → Int) (d : Date) : Prop where
  month : 1 ≤ d.month ∧ d.month ≤ 12
  day : 1 ≤ d.day ∧ d.day ≤ length d.year d.month

/-- The hour, the minute and the second are those of a day. -/
structure Moment.InDay (t : Moment) : Prop where
  hour : 0 ≤ t.hour ∧ t.hour < 24
  minute : 0 ≤ t.minute ∧ t.minute < 60
  second : 0 ≤ t.second ∧ t.second < 60

/-- The seconds of its day that have passed. -/
def Moment.seconds (t : Moment) : Int := (t.hour * 60 + t.minute) * 60 + t.second

/-- The midnights in the next `n` seconds. -/
def Moment.midnights (t : Moment) (n : Nat) : Nat := ((t.seconds + n) / 86400).toNat

/-- The next day. -/
def next (length : Int → Int → Int) (d : Date) : Date :=
  if d.day < length d.year d.month then { d with day := d.day + 1 }
  else if d.month < 12 then ⟨d.year, d.month + 1, 1⟩
  else ⟨d.year + 1, 1, 1⟩

/-- The next second, where `next` gives the next day. -/
def tick (next : Date → Date) (t : Moment) : Moment :=
  if t.second < 59 then { t with second := t.second + 1 }
  else if t.minute < 59 then { t with minute := t.minute + 1, second := 0 }
  else if t.hour < 23 then { t with hour := t.hour + 1, minute := 0, second := 0 }
  else ⟨next t.date, 0, 0, 0⟩

/-! ## Days -/

theorem gregorian_pos (year month : Int) : 1 ≤ gregorian year month := by
  rw [gregorian]
  split
  · split <;> decide
  · split <;> decide

theorem gregorian_le (year month : Int) : gregorian year month ≤ 31 := by
  rw [gregorian]
  split
  · split <;> decide
  · split <;> decide

variable {length : Int → Int → Int} {d : Date}

theorem Date.Valid.next (hlength : ∀ year month, 1 ≤ length year month) (h : d.Valid length) :
    (next length d).Valid length := by
  rw [Calendar.next]
  split
  · next hday => exact ⟨h.month, Int.le_add_one h.day.1, Int.add_one_le_of_lt hday⟩
  · split
    · next hmonth => exact ⟨⟨Int.le_add_one h.month.1, Int.add_one_le_of_lt hmonth⟩, le_rfl,
        hlength _ _⟩
    · exact ⟨⟨le_rfl, (by decide : (1 : Int) ≤ 12)⟩, le_rfl, hlength _ _⟩

theorem Date.Valid.iterate (hlength : ∀ year month, 1 ≤ length year month) (h : d.Valid length)
    (n : Nat) : ((Calendar.next length)^[n] d).Valid length := by
  induction n with
  | zero => exact h
  | succ n ih =>
      rw [Function.iterate_succ_apply']
      exact ih.next hlength

/-- The years do not go back. -/
theorem year_le_iterate (d : Date) (n : Nat) : d.year ≤ ((next length)^[n] d).year := by
  induction n with
  | zero => exact le_rfl
  | succ n ih =>
      rw [Function.iterate_succ_apply', next]
      split
      · exact ih
      · split
        · exact ih
        · exact Int.le_add_one ih

/-- With months of at most `k` days, `n` days come as far as `n` places of months of `k` days. -/
theorem days_le {k : Int} (hpos : ∀ year month, 1 ≤ length year month)
    (hle : ∀ year month, length year month ≤ k) (h : d.Valid length) (n : Nat) :
    let d' := (next length)^[n] d
    (12 * d.year + d.month) * k + d.day + n ≤ (12 * d'.year + d'.month) * k + d'.day := by
  induction n with
  | zero => simp
  | succ n ih =>
      have hvalid := h.iterate hpos n
      have hk := hvalid.day.2.trans (hle _ _)
      have htwelve := hvalid.month.2
      have hk0 := hvalid.day.1
      rw [Function.iterate_succ_apply', next]
      dsimp only at ih ⊢
      push_cast
      split
      · dsimp only
        linarith
      · split
        · dsimp only
          linarith
        · next hmonth =>
            have heq : ((next length)^[n] d).month = 12 := by omega
            rw [heq] at ih
            dsimp only
            linarith

/-! ## Seconds -/

theorem Moment.InDay.seconds_nonneg {t : Moment} (h : t.InDay) : 0 ≤ t.seconds := by
  have hh := h.hour
  have hm := h.minute
  have hs := h.second
  rw [Moment.seconds]
  omega

/-- A moment is given by its date and by the seconds of the day. -/
theorem Moment.InDay.eq {t t' : Moment} (h : t.InDay) (h' : t'.InDay)
    (hdate : t.date = t'.date) (hseconds : t.seconds = t'.seconds) : t = t' := by
  have hh := h.hour
  have hm := h.minute
  have hs := h.second
  have hh' := h'.hour
  have hm' := h'.minute
  have hs' := h'.second
  rw [Moment.seconds, Moment.seconds] at hseconds
  exact Moment.ext hdate (by omega) (by omega) (by omega)

/-- A tick adds a second, and a day where it was the last one. -/
theorem tick_spec (next : Date → Date) {t : Moment} (h : t.InDay) :
    (tick next t).InDay ∧
      (t.seconds < 86399 → (tick next t).seconds = t.seconds + 1 ∧ (tick next t).date = t.date) ∧
      (t.seconds = 86399 → (tick next t).seconds = 0 ∧ (tick next t).date = next t.date) ∧
      t.seconds ≤ 86399 := by
  have hh := h.hour
  have hm := h.minute
  have hs := h.second
  have hour : (0 : Int) ≤ 0 ∧ (0 : Int) < 24 := by decide
  have minute : (0 : Int) ≤ 0 ∧ (0 : Int) < 60 := by decide
  rw [tick]
  simp only [Moment.seconds]
  split
  · exact ⟨⟨hh, hm, by dsimp only; omega⟩, fun _ => ⟨by dsimp only; omega, rfl⟩, fun _ => by omega,
      by omega⟩
  · split
    · exact ⟨⟨hh, by dsimp only; omega, minute⟩, fun _ => ⟨by dsimp only; omega, rfl⟩,
        fun _ => by omega, by omega⟩
    · split
      · exact ⟨⟨by dsimp only; omega, minute, minute⟩,
          fun _ => ⟨by dsimp only; omega, rfl⟩, fun _ => by omega, by omega⟩
      · exact ⟨⟨hour, minute, minute⟩, fun _ => by omega, fun _ => ⟨rfl, rfl⟩, by omega⟩

/-- The date after `n` seconds is the one after the midnights in them. -/
theorem tick_iterate (next : Date → Date) {t : Moment} (h : t.InDay) (n : Nat) :
    ((tick next)^[n] t).InDay ∧ ((tick next)^[n] t).seconds = (t.seconds + n) % 86400 ∧
      ((tick next)^[n] t).date = next^[t.midnights n] t.date := by
  induction n with
  | zero =>
      obtain ⟨-, -, -, hle⟩ := tick_spec next h
      have hpos := h.seconds_nonneg
      have hzero : t.midnights 0 = 0 := by
        rw [Moment.midnights]
        omega
      rw [hzero]
      exact ⟨h, by simp only [Function.iterate_zero, id]; omega, rfl⟩
  | succ n ih =>
      obtain ⟨hday, hseconds, hdate⟩ := ih
      obtain ⟨hnext, hwithin, hover, hle⟩ := tick_spec next hday
      have hpos := h.seconds_nonneg
      rw [Function.iterate_succ_apply']
      refine ⟨hnext, ?_⟩
      rw [hseconds] at hwithin hover hle
      by_cases hlast : (t.seconds + n) % 86400 < 86399
      · obtain ⟨hone, hsame⟩ := hwithin hlast
        have hmidnights : t.midnights (n + 1) = t.midnights n := by
          simp only [Moment.midnights]
          omega
        rw [hone, hsame, hmidnights]
        exact ⟨by omega, hdate⟩
      · obtain ⟨hone, hsame⟩ := hover (by omega)
        have hmidnights : t.midnights (n + 1) = t.midnights n + 1 := by
          simp only [Moment.midnights]
          omega
        rw [hone, hsame, hmidnights, Function.iterate_succ_apply', hdate]
        exact ⟨by omega, rfl⟩

/-- Two calendars that begin in one moment agree after `n` seconds where their dates do. -/
theorem tick_iterate_eq_iff (next next' : Date → Date) {t : Moment} (h : t.InDay) (n : Nat) :
    (tick next)^[n] t = (tick next')^[n] t ↔
      next^[t.midnights n] t.date = next'^[t.midnights n] t.date := by
  obtain ⟨hday, hseconds, hdate⟩ := tick_iterate next h n
  obtain ⟨hday', hseconds', hdate'⟩ := tick_iterate next' h n
  rw [← hdate, ← hdate']
  constructor
  · intro heq
    rw [heq]
  · intro heq
    exact hday.eq hday' heq (hseconds.trans hseconds'.symm)

/-! ## Months of one length -/

/-- The place of a day among those of a calendar whose months all have `k` days. The days behind the
last one of a month are counted as it. -/
def place (k : Int) (d : Date) : Int := (12 * d.year + d.month) * k + min d.day k

/-- The next day is the next place, and it is a day of its month. -/
theorem place_next {k : Int} (hk : 1 ≤ k) (hmonth : 1 ≤ d.month ∧ d.month ≤ 12)
    (hday : 1 ≤ d.day) : place k (next (fun _ _ => k) d) = place k d + 1 ∧
      (next (fun _ _ => k) d).Valid fun _ _ => k := by
  rw [next]
  split
  · next hlt =>
      refine ⟨?_, hmonth, Int.le_add_one hday, Int.add_one_le_of_lt hlt⟩
      simp only [place]
      omega
  · next hlast =>
      have hmin : min d.day k = k := min_eq_right (not_lt.mp hlast)
      have hone : min 1 k = 1 := min_eq_left hk
      split
      · next hlt =>
          refine ⟨?_, ⟨Int.le_add_one hmonth.1, Int.add_one_le_of_lt hlt⟩, le_rfl, hk⟩
          simp only [place, hmin, hone]
          ring
      · next hlt =>
          have htwelve : d.month = 12 := by omega
          refine ⟨?_, ⟨le_rfl, (by decide : (1 : Int) ≤ 12)⟩, le_rfl, hk⟩
          simp only [place, hmin, hone, htwelve]
          ring

/-- Different days have different places. -/
theorem place_inj {k : Int} {d d' : Date} (h : d.Valid fun _ _ => k) (h' : d'.Valid fun _ _ => k)
    (heq : place k d = place k d') : d = d' := by
  obtain ⟨year, month, day⟩ := d
  obtain ⟨year', month', day'⟩ := d'
  obtain ⟨hmonth, hday⟩ := h
  obtain ⟨hmonth', hday'⟩ := h'
  simp only [place] at *
  rw [min_eq_left hday.2, min_eq_left hday'.2] at heq
  have hmonths : 12 * year + month = 12 * year' + month' := by
    rcases lt_trichotomy (12 * year + month) (12 * year' + month') with hlt | hsame | hgt
    · nlinarith
    · exact hsame
    · nlinarith
  rw [hmonths] at heq
  rw [Date.mk.injEq]
  omega

/-- After `n` days the calendar is `n` places on. -/
theorem place_iterate {k : Int} (hk : 1 ≤ k) (hmonth : 1 ≤ d.month ∧ d.month ≤ 12)
    (hday : 1 ≤ d.day) (n : Nat) :
    let d' := (next fun _ _ => k)^[n] d
    place k d' = place k d + n ∧ (1 ≤ d'.month ∧ d'.month ≤ 12) ∧ 1 ≤ d'.day ∧
      (n ≠ 0 → d'.day ≤ k) := by
  induction n with
  | zero => exact ⟨(Int.add_zero _).symm, hmonth, hday, fun h => absurd rfl h⟩
  | succ n ih =>
      obtain ⟨hplace, hmonth', hday', -⟩ := ih
      obtain ⟨hnext, hvalid⟩ := place_next hk hmonth' hday'
      rw [Function.iterate_succ_apply']
      refine ⟨?_, hvalid.month, hvalid.day.1, fun _ => hvalid.day.2⟩
      rw [hnext, hplace]
      push_cast
      ring

/-- A calendar with months of `k` days comes to a given day after `n` days where it is one of its
days and `n` places on. -/
theorem equal_months_iff {k : Int} (hk : 1 ≤ k) (hmonth : 1 ≤ d.month ∧ d.month ≤ 12)
    (hday : 1 ≤ d.day) {n : Nat} (hn : n ≠ 0) {r : Date} (hr : 1 ≤ r.month ∧ r.month ≤ 12)
    (hrday : 1 ≤ r.day) :
    (next fun _ _ => k)^[n] d = r ↔ r.day ≤ k ∧ place k r - place k d = n := by
  obtain ⟨hplace, hmonth', hday', hlast⟩ := place_iterate hk hmonth hday n
  constructor
  · intro heq
    rw [heq] at hplace hlast
    exact ⟨hlast hn, by omega⟩
  · rintro ⟨hle, hdiff⟩
    exact place_inj ⟨hmonth', hday', hlast hn⟩ ⟨hr, hrday, hle⟩ (by omega)

end Calendar
