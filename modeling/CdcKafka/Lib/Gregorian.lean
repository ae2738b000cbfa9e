import Mathlib.Data.Int.Basic
import Mathlib.Tactic.IntervalCases

/-! The proleptic Gregorian calendar and the number of a day in it. The day with the number 0 is November 24 of the year
-4713, where the year 0 is the one before the year 1. -/

namespace CdcKafka.Lib

@[ext]
structure Date where
  year : ℤ
  month : ℤ
  day : ℤ
deriving DecidableEq

def Leap (year : ℤ) : Prop := year % 4 = 0 ∧ (year % 100 ≠ 0 ∨ year % 400 = 0)

instance (year : ℤ) : Decidable (Leap year) := inferInstanceAs (Decidable (_ ∧ _))

def daysInMonth (year month : ℤ) : ℤ :=
  if month = 2 then (if Leap year then 29 else 28)
  else if month = 4 ∨ month = 6 ∨ month = 9 ∨ month = 11 then 30
  else 31

def daysBeforeYear (year : ℤ) : ℤ := 365 * (year - 1) + (year - 1) / 4 - (year - 1) / 100 + (year - 1) / 400

def daysBeforeMonth (year month : ℤ) : ℤ :=
  if month = 1 then 0
  else if month = 2 then 31
  else
    (if month = 3 then 59 else if month = 4 then 90 else if month = 5 then 120 else if month = 6 then 151
      else if month = 7 then 181 else if month = 8 then 212 else if month = 9 then 243 else if month = 10 then 273
      else if month = 11 then 304 else 334) + if Leap year then 1 else 0

namespace Date

structure Valid (d : Date) : Prop where
  month_pos : 1 ≤ d.month
  month_le : d.month ≤ 12
  day_pos : 1 ≤ d.day
  day_le : d.day ≤ daysInMonth d.year d.month

def next (d : Date) : Date :=
  if d.day < daysInMonth d.year d.month then ⟨d.year, d.month, d.day + 1⟩
  else if d.month < 12 then ⟨d.year, d.month + 1, 1⟩
  else ⟨d.year + 1, 1, 1⟩

def julianDay (d : Date) : ℤ := daysBeforeYear d.year + daysBeforeMonth d.year d.month + d.day + 1721425

end Date

theorem daysInMonth_pos (year month : ℤ) : 28 ≤ daysInMonth year month := by
  rw [daysInMonth]
  split_ifs <;> decide

theorem daysBeforeMonth_next {year month : ℤ} (h : 1 ≤ month) (h' : month < 12) :
    daysBeforeMonth year (month + 1) = daysBeforeMonth year month + daysInMonth year month := by
  by_cases hleap : Leap year
  · interval_cases month <;> simp [daysBeforeMonth, daysInMonth, hleap]
  · interval_cases month <;> simp [daysBeforeMonth, daysInMonth, hleap]

theorem daysBeforeYear_next (year : ℤ) : daysBeforeYear (year + 1) =
    daysBeforeYear year + daysBeforeMonth year 12 + daysInMonth year 12 := by
  have hyear : daysBeforeYear (year + 1) = daysBeforeYear year + if Leap year then 366 else 365 := by
    rw [daysBeforeYear, daysBeforeYear]
    split_ifs with hleap
    · obtain ⟨h4, h100 | h400⟩ := hleap
      · omega
      · omega
    · rw [Leap] at hleap
      omega
  by_cases hleap : Leap year
  · simp [hyear, daysBeforeMonth, daysInMonth, hleap]; omega
  · simp [hyear, daysBeforeMonth, daysInMonth, hleap]; omega

theorem Date.julianDay_mk (year month day : ℤ) : (Date.mk year month day).julianDay =
    daysBeforeYear year + daysBeforeMonth year month + day + 1721425 := rfl

theorem Date.valid_mk {year month day : ℤ} (h : 1 ≤ month) (h' : month ≤ 12) (hday : 1 ≤ day)
    (hday' : day ≤ daysInMonth year month) : (Date.mk year month day).Valid := ⟨h, h', hday, hday'⟩

theorem Date.julianDay_next {d : Date} (h : d.Valid) : d.next.julianDay = d.julianDay + 1 := by
  obtain ⟨hmonth, hmonth', -, hday⟩ := h
  rw [Date.next]
  split_ifs with hmore hyear
  · rw [Date.julianDay_mk, Date.julianDay]
    omega
  · rw [Date.julianDay_mk, Date.julianDay, daysBeforeMonth_next hmonth hyear]
    omega
  · have hlast : d.month = 12 := by omega
    have hfirst : daysBeforeMonth (d.year + 1) 1 = 0 := by rw [daysBeforeMonth, if_pos rfl]
    rw [Date.julianDay_mk, Date.julianDay, daysBeforeYear_next, hlast, hfirst]
    rw [hlast] at hday hmore
    omega

theorem Date.valid_next {d : Date} (h : d.Valid) : d.next.Valid := by
  obtain ⟨hmonth, hmonth', hday, hday'⟩ := h
  rw [Date.next]
  split_ifs with hmore hyear
  · exact valid_mk hmonth hmonth' (by omega) hmore
  · have hlong := daysInMonth_pos d.year (d.month + 1)
    exact valid_mk (by omega) hyear (le_refl _) (by omega)
  · have hlong := daysInMonth_pos (d.year + 1) 1
    exact valid_mk (le_refl _) (by decide) (le_refl _) (by omega)

theorem daysBeforeMonth_mono {year month month' : ℤ} (h : 1 ≤ month) (h' : month' ≤ 12) (hlt : month < month') :
    daysBeforeMonth year month + daysInMonth year month ≤ daysBeforeMonth year month' := by
  obtain ⟨n, rfl⟩ : ∃ n : ℕ, month' = month + 1 + n := ⟨(month' - month - 1).toNat, by omega⟩
  clear hlt
  induction n with
  | zero => rw [Nat.cast_zero, Int.add_zero, daysBeforeMonth_next h (by omega)]
  | succ n ih =>
    have hstep := @daysBeforeMonth_next year (month + 1 + n) (by omega) (by omega)
    have hlong := daysInMonth_pos year (month + 1 + n)
    have hle := ih (by omega)
    rw [Nat.cast_succ, ← Int.add_assoc, hstep]
    omega

theorem daysBeforeMonth_nonneg {year month : ℤ} (h : 1 ≤ month) (h' : month ≤ 12) : 0 ≤ daysBeforeMonth year month := by
  rcases Int.lt_or_eq_of_le h with hlt | rfl
  · have hmono := @daysBeforeMonth_mono year _ _ (le_refl 1) h' hlt
    have hlong := daysInMonth_pos year 1
    have hfirst : daysBeforeMonth year 1 = 0 := by rw [daysBeforeMonth, if_pos rfl]
    omega
  · rw [daysBeforeMonth, if_pos rfl]

theorem Date.Valid.yearDay {d : Date} (h : d.Valid) : 1 ≤ daysBeforeMonth d.year d.month + d.day ∧
      daysBeforeYear d.year + (daysBeforeMonth d.year d.month + d.day) ≤ daysBeforeYear (d.year + 1) := by
  have hnonneg := @daysBeforeMonth_nonneg d.year _ h.month_pos h.month_le
  have hpos := h.day_pos
  have hle := h.day_le
  rw [daysBeforeYear_next]
  rcases Int.lt_or_eq_of_le h.month_le with hlt | heq
  · have hmono := @daysBeforeMonth_mono d.year _ _ h.month_pos (le_refl 12) hlt
    have hlong := daysInMonth_pos d.year 12
    omega
  · rw [heq] at hle hnonneg ⊢
    omega

theorem daysBeforeYear_mono {year year' : ℤ} (h : year ≤ year') : daysBeforeYear year ≤ daysBeforeYear year' := by
  rw [daysBeforeYear, daysBeforeYear]
  omega

theorem Date.julianDay_injective {d d' : Date} (h : d.Valid) (h' : d'.Valid) (heq : d.julianDay = d'.julianDay) :
    d = d' := by
  obtain ⟨hpos, hle⟩ := h.yearDay
  obtain ⟨hpos', hle'⟩ := h'.yearDay
  rw [Date.julianDay, Date.julianDay] at heq
  have hyear : d.year = d'.year := by
    rcases lt_trichotomy d.year d'.year with hlt | heq | hlt
    · have := daysBeforeYear_mono (Int.add_one_le_of_lt hlt)
      omega
    · exact heq
    · have := daysBeforeYear_mono (Int.add_one_le_of_lt hlt)
      omega
  have hday := h.day_pos
  have hday' := h'.day_pos
  have hend := h.day_le
  have hend' := h'.day_le
  rw [hyear] at heq hend
  have hmonth : d.month = d'.month := by
    rcases lt_trichotomy d.month d'.month with hlt | heq | hlt
    · have := @daysBeforeMonth_mono d'.year _ _ h.month_pos h'.month_le hlt
      omega
    · exact heq
    · have := @daysBeforeMonth_mono d'.year _ _ h'.month_pos h.month_le hlt
      omega
  rw [hmonth] at heq
  exact Date.ext hyear hmonth (by omega)

end CdcKafka.Lib
