import CdcKafka.Lib.Gregorian
import Mathlib.Algebra.Order.Ring.Int

/-! The conversions between calendar dates and Julian days of `datetime.c`, with the `int` operations of `date2j` that can
overflow and the `unsigned int` operations of `j2date` that wrap around. -/

namespace CdcKafka.Datetime

open Lib

def INT_MAX : ℤ := 2147483647

def MONTHS_PER_YEAR : ℤ := 12

/-- A signed result, where it does not overflow. -/
def int (n : ℤ) : Option ℤ := if -INT_MAX - 1 ≤ n ∧ n ≤ INT_MAX then some n else none

def uint (n : ℤ) : ℤ := n % 4294967296

def date2jFrom (year month day : ℤ) : Option ℤ := do
  let century := year.tdiv 100
  let julian ← int ((← int (year * 365)) - 32167)
  let julian ← int (julian + (← int ((← int (year.tdiv 4 - century)) + century.tdiv 4)))
  int (julian + (← int ((← int (7834 * month)).tdiv 256 + day)))

def date2j (d : Date) : Option ℤ := do
  if 2 < d.month then date2jFrom (← int (d.year + 4800)) (← int (d.month + 1)) d.day
  else date2jFrom (← int (d.year + 4799)) (← int (d.month + 13)) d.day

def withCenturies (jd : ℤ) : ℤ :=
  let julian := uint (uint jd + 32044)
  let quad := julian / 146097
  let extra := uint (uint (uint (julian - uint (quad * 146097)) * 4) + 3)
  uint (julian + uint (uint (60 + uint (quad * 3)) + extra / 146097))

def monthAndDay (y julian : ℤ) : Date :=
  let quad := uint (julian * 2141) / 65536
  ⟨y - 4800, uint (quad + 10) % MONTHS_PER_YEAR + 1, uint (julian - uint (7834 * quad) / 256)⟩

def j2date (jd : ℤ) : Date :=
  let julian := withCenturies jd
  let quad := julian / 1461
  let julian := uint (julian - uint (quad * 1461))
  let y := uint (julian * 4) / 1461
  let julian := uint ((if y ≠ 0 then uint (julian + 305) % 365 else uint (julian + 306) % 366) + 123)
  monthAndDay (uint (y + uint (quad * 4))) julian

theorem uint_of_nonneg {n : ℤ} (h : 0 ≤ n) (h' : n < 4294967296) : uint n = n := Int.emod_eq_of_lt h h'

/-- The Julian day counted in years of which every fourth is a leap year: `quads` times 400 years are behind it, and
`centuries` of the next 400. -/
structure Centuries (jd quads centuries rest : ℤ) : Prop where
  day : jd + 32044 = 146097 * quads + (rest - centuries)
  quads_nonneg : 0 ≤ quads
  century : centuries = 0 ∧ 0 ≤ rest ∧ rest ≤ 36523 ∨ centuries = 1 ∧ 36525 ≤ rest ∧ rest ≤ 73048 ∨
    centuries = 2 ∧ 73050 ≤ rest ∧ rest ≤ 109573 ∨ centuries = 3 ∧ 109575 ≤ rest ∧ rest ≤ 146099

theorem withCenturies_eq {jd : ℤ} (h : 0 ≤ jd) (h' : jd ≤ INT_MAX) :
    ∃ quads centuries rest, Centuries jd quads centuries rest ∧ withCenturies jd = 146100 * quads + rest + 60 := by
  rw [INT_MAX] at h'
  have hjd : uint jd = jd := uint_of_nonneg h (by omega)
  have hsum : uint (jd + 32044) = jd + 32044 := uint_of_nonneg (by omega) (by omega)
  rw [withCenturies, hjd, hsum]
  generalize hn : jd + 32044 = n
  have hquad : 146097 * (n / 146097) ≤ n ∧ n < 146097 * (n / 146097) + 146097 := by omega
  have hprod : uint (n / 146097 * 146097) = n / 146097 * 146097 := uint_of_nonneg (by omega) (by omega)
  rw [hprod]
  generalize hq : n / 146097 = q at *
  obtain ⟨r, rfl⟩ : ∃ r, n = 146097 * q + r := ⟨n - 146097 * q, by omega⟩
  have hr : 146097 * q + r - q * 146097 = r := by omega
  have hr' : uint r = r := uint_of_nonneg (by omega) (by omega)
  have hquads : 0 ≤ q ∧ q ≤ 15000 := by omega
  have hextra : uint (uint (r * 4) + 3) = r * 4 + 3 := by
    rw [uint_of_nonneg (n := r * 4) (by omega) (by omega)]
    exact uint_of_nonneg (by omega) (by omega)
  rw [hr, hr', hextra, uint_of_nonneg (n := q * 3) (by omega) (by omega)]
  generalize hc : (r * 4 + 3) / 146097 = c
  have hcent : c = 0 ∧ r ≤ 36523 ∨ c = 1 ∧ 36524 ≤ r ∧ r ≤ 73047 ∨ c = 2 ∧ 73048 ≤ r ∧ r ≤ 109571 ∨
      c = 3 ∧ 109572 ≤ r := by omega
  refine ⟨q, c, r + c, ⟨by omega, hquads.1, by omega⟩, ?_⟩
  rw [uint_of_nonneg (n := 60 + q * 3) (by omega) (by omega), uint_of_nonneg (n := 60 + q * 3 + c) (by omega) (by omega),
    uint_of_nonneg (by omega) (by omega)]
  omega

structure MarchDay (n y e : ℤ) : Prop where
  day : n = 365 * y + y / 4 + e
  day_nonneg : 0 ≤ e
  day_lt : e < 366
  leap : e = 365 → y % 4 = 3
  year_nonneg : 0 ≤ y

theorem j2date_march {jd n : ℤ} (hn : withCenturies jd = n + 60) (hpos : 0 ≤ n) (hle : n ≤ 2200000000) :
    ∃ y e, MarchDay n y e ∧ j2date jd = monthAndDay (if e < 306 then y else y + 1) (e + 123) := by
  rw [j2date, hn]
  have hquad : 1461 * ((n + 60) / 1461) ≤ n + 60 ∧ n + 60 < 1461 * ((n + 60) / 1461) + 1461 := by omega
  generalize (n + 60) / 1461 = quad at *
  obtain ⟨r, hr⟩ : ∃ r, n + 60 = 1461 * quad + r := ⟨n + 60 - 1461 * quad, by omega⟩
  have hprod : uint (quad * 1461) = quad * 1461 := uint_of_nonneg (by omega) (by omega)
  have hrest : uint (n + 60 - quad * 1461) = r := (uint_of_nonneg (by omega) (by omega)).trans (by omega)
  rw [hprod, hrest, uint_of_nonneg (n := r * 4) (by omega) (by omega)]
  generalize hy : r * 4 / 1461 = y
  have hyear : y = 0 ∧ 0 ≤ r ∧ r ≤ 365 ∨ y = 1 ∧ 366 ≤ r ∧ r ≤ 730 ∨ y = 2 ∧ 731 ≤ r ∧ r ≤ 1095 ∨
      y = 3 ∧ 1096 ≤ r ∧ r ≤ 1460 := by omega
  rw [uint_of_nonneg (n := r + 305) (by omega) (by omega), uint_of_nonneg (n := r + 306) (by omega) (by omega),
    uint_of_nonneg (n := quad * 4) (by omega) (by omega), uint_of_nonneg (n := y + quad * 4) (by omega) (by omega)]
  generalize he : (if y ≠ 0 then (r + 305) % 365 else (r + 306) % 366) = e
  have hday : (if e < 306 then 4 * quad + y else 4 * quad + y - 1) * 365 +
      (if e < 306 then 4 * quad + y else 4 * quad + y - 1) / 4 + e = n ∧ 0 ≤ e ∧ e < 366 ∧ (e = 365 → y = 0) := by
    split_ifs at he with hzero <;> split_ifs <;> omega
  rw [uint_of_nonneg (n := e + 123) (by omega) (by omega)]
  refine ⟨if e < 306 then 4 * quad + y else 4 * quad + y - 1, e, ⟨by omega, hday.2.1, hday.2.2.1, fun hlast => ?_, ?_⟩, ?_⟩
  · have hnot : ¬ e < 306 := by omega
    rw [if_neg hnot]
    have := hday.2.2.2 hlast
    omega
  · split_ifs with hlt
    · omega
    · omega
  · congr 1
    split_ifs <;> omega

theorem Centuries.leap {jd quads centuries rest y : ℤ} (h : Centuries jd quads centuries rest)
    (hday : MarchDay (146100 * quads + rest) y 365) : Leap (y + 1) := by
  obtain ⟨-, hquads, hcentury⟩ := h
  have hyear := hday.day
  have hmod := hday.leap rfl
  rw [Leap]
  omega

theorem Centuries.julian {jd quads centuries rest y e : ℤ} (h : Centuries jd quads centuries rest)
    (hday : MarchDay (146100 * quads + rest) y e) : 365 * y + y / 4 - y / 100 + y / 400 + e = jd + 32044 := by
  obtain ⟨hjd, hquads, hcentury⟩ := h
  obtain ⟨hyear, hpos, hlt, hleap, hnonneg⟩ := hday
  have hhundred : y / 100 = 4 * quads + centuries := by omega
  omega

/-- What `j2date` finds for each day of a year that starts with March: `q` is the month, counted from 4 on. -/
def MonthFits (e q : ℕ) : Prop :=
  4 ≤ q ∧ q ≤ 15 ∧ (e < 306 ↔ q ≤ 13) ∧ 7834 * q / 256 < e + 123 ∧
    e + 123 - 7834 * q / 256 ≤ (if q = 15 then if e = 365 then 29 else 28
      else if q = 5 ∨ q = 7 ∨ q = 10 ∨ q = 12 then 30 else 31)

instance (e q : ℕ) : Decidable (MonthFits e q) := inferInstanceAs (Decidable (_ ∧ _))

theorem monthFits : ∀ e < 366, MonthFits e ((e + 123) * 2141 / 65536) := by
  decide +kernel

def marchDate (y q day : ℤ) : Date := if q ≤ 13 then ⟨y - 4800, q - 1, day⟩ else ⟨y + 1 - 4800, q - 13, day⟩

theorem julianDay_marchDate {y q : ℤ} (hq : 4 ≤ q) (hq' : q ≤ 15) (day : ℤ) :
    (marchDate y q day).julianDay = 365 * y + y / 4 - y / 100 + y / 400 + (7834 * q / 256 + day) - 32167 := by
  rw [marchDate]
  split_ifs with hle
  · rw [Date.julianDay_mk, daysBeforeYear]
    have hmonth : daysBeforeMonth (y - 4800) (q - 1) = 7834 * q / 256 - 63 + if Leap (y - 4800) then 1 else 0 := by
      rw [daysBeforeMonth]
      interval_cases q <;> rfl
    rw [hmonth]
    by_cases hleap : Leap (y - 4800)
    · rw [if_pos hleap]
      rw [Leap] at hleap
      omega
    · rw [if_neg hleap]
      rw [Leap] at hleap
      omega
  · rw [Date.julianDay_mk, daysBeforeYear]
    have hmonth : daysBeforeMonth (y + 1 - 4800) (q - 13) = 7834 * q / 256 - 428 := by
      rw [daysBeforeMonth]
      interval_cases q <;> rfl
    rw [hmonth]
    omega

theorem valid_marchDate {y e : ℤ} {q : ℕ} (he : 0 ≤ e) (hfits : MonthFits e.toNat q)
    (hleap : e = 365 → Leap (y + 1)) : (marchDate y q (e + 123 - 7834 * q / 256)).Valid := by
  obtain ⟨hq, hq', hwinter, hpos, hle⟩ := hfits
  obtain ⟨e, rfl⟩ : ∃ n : ℕ, e = n := ⟨e.toNat, by omega⟩
  rw [Int.toNat_natCast] at hle hpos hwinter
  rw [marchDate]
  split_ifs with h
  · refine Date.valid_mk (by omega) (by omega) (by omega) ?_
    rw [daysInMonth]
    split_ifs at hle ⊢ <;> omega
  · refine Date.valid_mk (by omega) (by omega) (by omega) ?_
    rcases Nat.lt_or_ge q 15 with hjan | hfeb
    · obtain rfl : q = 14 := by omega
      rw [if_neg (by decide), if_neg (by decide)] at hle
      rw [daysInMonth, if_neg (by decide), if_neg (by decide)]
      omega
    · obtain rfl : q = 15 := by omega
      rw [if_pos rfl] at hle
      rw [daysInMonth, if_pos (by decide)]
      by_cases hlast : (e : ℤ) = 365
      · have hyear := hleap hlast
        have hleap' : Leap (y + 1 - 4800) := by
          rw [Leap] at hyear ⊢
          omega
        rw [if_pos hleap']
        split_ifs at hle <;> omega
      · rw [if_neg (by omega)] at hle
        split_ifs <;> omega

theorem int_eq {n : ℤ} (h : -2147483648 ≤ n) (h' : n ≤ 2147483647) : int n = some n := if_pos ⟨h, h'⟩

theorem date2jFrom_eq {y m d jd : ℤ} (hy : 0 ≤ y) (hm : 0 ≤ m) (hm' : m ≤ 15) (hd : 1 ≤ d) (hd' : d ≤ 31)
    (hjd : 365 * y + y / 4 - y / 100 + y / 400 + (7834 * m / 256 + d) - 32167 = jd) (hle : jd ≤ INT_MAX) :
    date2jFrom y m d = some jd := by
  rw [INT_MAX] at hle
  have hcentury : y.tdiv 100 = y / 100 := Int.tdiv_eq_ediv_of_nonneg hy
  have hquad : y.tdiv 4 = y / 4 := Int.tdiv_eq_ediv_of_nonneg hy
  have hcenturies : (y / 100).tdiv 4 = y / 400 := by
    rw [Int.tdiv_eq_ediv_of_nonneg (by omega)]
    omega
  have hmonth : (7834 * m).tdiv 256 = 7834 * m / 256 := Int.tdiv_eq_ediv_of_nonneg (by omega)
  have hdays : int (y * 365) = some (y * 365) := int_eq (by omega) (by omega)
  have hbase : int (y * 365 - 32167) = some (y * 365 - 32167) := int_eq (by omega) (by omega)
  have hquads : int (y / 4 - y / 100) = some (y / 4 - y / 100) := int_eq (by omega) (by omega)
  have hleaps : int (y / 4 - y / 100 + y / 400) = some (y / 4 - y / 100 + y / 400) := int_eq (by omega) (by omega)
  have hyears : int (y * 365 - 32167 + (y / 4 - y / 100 + y / 400)) =
      some (y * 365 - 32167 + (y / 4 - y / 100 + y / 400)) := int_eq (by omega) (by omega)
  have hmonths : int (7834 * m) = some (7834 * m) := int_eq (by omega) (by omega)
  have hrest : int (7834 * m / 256 + d) = some (7834 * m / 256 + d) := int_eq (by omega) (by omega)
  have htotal : y * 365 - 32167 + (y / 4 - y / 100 + y / 400) + (7834 * m / 256 + d) = jd := by omega
  rw [date2jFrom, hcentury, hquad, hcenturies]
  simp only [hdays, hbase, hquads, hleaps, hyears, hmonths, hmonth, hrest, htotal, Option.bind_eq_bind, Option.bind_some]
  exact int_eq (by omega) hle

theorem date2j_marchDate {y q day jd : ℤ} (hy : 0 ≤ y) (hq : 4 ≤ q) (hq' : q ≤ 15) (hday : 1 ≤ day)
    (hday' : day ≤ 31) (hjd : (marchDate y q day).julianDay = jd) (hle : jd ≤ INT_MAX) : date2j (marchDate y q day) = some jd := by
  have hfrom : date2jFrom y q day = some jd :=
    date2jFrom_eq hy (by omega) hq' hday hday' ((julianDay_marchDate hq hq' day).symm.trans hjd) hle
  rw [julianDay_marchDate hq hq'] at hjd
  rw [INT_MAX] at hle
  rw [marchDate, date2j]
  split_ifs with hspring hmonth hmonth
  · have hyear : int (y - 4800 + 4800) = some y := by rw [Int.sub_add_cancel]; exact int_eq (by omega) (by omega)
    have hmonth' : int (q - 1 + 1) = some q := by rw [Int.sub_add_cancel]; exact int_eq (by omega) (by omega)
    rw [hyear, hmonth']
    exact hfrom
  · exact absurd (show 2 < q - 1 by omega) hmonth
  · exact absurd (show 2 < q - 13 from hmonth) (by omega)
  · have hyear : int (y + 1 - 4800 + 4799) = some y := by
      rw [show y + 1 - 4800 + 4799 = y by omega]
      exact int_eq (by omega) (by omega)
    have hmonth' : int (q - 13 + 13) = some q := by rw [Int.sub_add_cancel]; exact int_eq (by omega) (by omega)
    rw [hyear, hmonth']
    exact hfrom

theorem j2date_spec {jd : ℤ} (h : 0 ≤ jd) (h' : jd ≤ INT_MAX) :
    (j2date jd).Valid ∧ (j2date jd).julianDay = jd ∧ date2j (j2date jd) = some jd := by
  obtain ⟨quads, centuries, rest, hcent, hday⟩ := withCenturies_eq h h'
  have hrange : 0 ≤ 146100 * quads + rest ∧ 146100 * quads + rest ≤ 2200000000 := by
    obtain ⟨hjd, hquads, hcentury⟩ := hcent
    rw [INT_MAX] at h'
    omega
  obtain ⟨y, e, hmarch, hdate⟩ := j2date_march hday hrange.1 hrange.2
  have hlt := hmarch.day_lt
  have hnonneg := hmarch.day_nonneg
  obtain ⟨n, rfl⟩ : ∃ n : ℕ, e = n := ⟨e.toNat, by omega⟩
  have hfits := monthFits n (by omega)
  obtain ⟨q, hq⟩ : ∃ q, q = (n + 123) * 2141 / 65536 := ⟨_, rfl⟩
  rw [← hq] at hfits
  have hfound : j2date jd = marchDate y q (n + 123 - 7834 * q / 256) := by
    obtain ⟨hq4, hq15, hwinter, hpos, -⟩ := hfits
    have hquad : uint ((n + 123 : ℤ) * 2141) / 65536 = q := by
      rw [uint_of_nonneg (by omega) (by omega), hq]
      omega
    have hmonth : uint ((q : ℤ) + 10) % MONTHS_PER_YEAR + 1 = if (q : ℤ) ≤ 13 then (q : ℤ) - 1 else q - 13 := by
      rw [uint_of_nonneg (by omega) (by omega), MONTHS_PER_YEAR]
      split_ifs <;> omega
    have hday' : uint ((n : ℤ) + 123 - uint (7834 * q) / 256) = n + 123 - 7834 * q / 256 := by
      rw [uint_of_nonneg (n := 7834 * (q : ℤ)) (by omega) (by omega)]
      exact uint_of_nonneg (by omega) (by omega)
    rw [hdate, monthAndDay, hquad, hmonth, hday', marchDate]
    split_ifs with hspring hle hle
    · rfl
    · omega
    · omega
    · rfl
  have hq4 := hfits.1
  have hq15 := hfits.2.1
  have hpos := hfits.2.2.2.1
  have hshort : (n : ℤ) + 123 - 7834 * q / 256 ≤ 31 := by
    have hle := hfits.2.2.2.2
    split_ifs at hle <;> omega
  have hvalid := @valid_marchDate y n q hnonneg hfits fun hlast => hcent.leap (hlast ▸ hmarch)
  have hjulian : (marchDate y q (n + 123 - 7834 * q / 256)).julianDay = jd := by
    have hcount := hcent.julian hmarch
    rw [julianDay_marchDate (by omega) (by omega)]
    omega
  rw [hfound]
  exact ⟨hvalid, hjulian, date2j_marchDate hmarch.year_nonneg (by omega) (by omega) (by omega) hshort hjulian h'⟩

/-- Dates from the Julian day 0 on and Julian days are the same thing, as far as an `int` goes. -/
theorem calendar_bijection : (∀ jd, 0 ≤ jd → jd ≤ INT_MAX → (j2date jd).Valid ∧ date2j (j2date jd) = some jd) ∧
    (∀ d : Date, d.Valid → 0 ≤ d.julianDay → d.julianDay ≤ INT_MAX →
      date2j d = some d.julianDay ∧ j2date d.julianDay = d) ∧
    ∀ d : Date, d.Valid → 0 ≤ d.julianDay → d.next.julianDay ≤ INT_MAX →
      ∃ jd, date2j d = some jd ∧ date2j d.next = some (jd + 1) := by
  have hinverse : ∀ d : Date, d.Valid → 0 ≤ d.julianDay → d.julianDay ≤ INT_MAX →
      date2j d = some d.julianDay ∧ j2date d.julianDay = d := by
    intro d hd hpos hle
    obtain ⟨hvalid, hsame, hback⟩ := j2date_spec hpos hle
    have heq : j2date d.julianDay = d := Date.julianDay_injective hvalid hd hsame
    rw [heq] at hback
    exact ⟨hback, heq⟩
  refine ⟨fun jd h h' => ?_, hinverse, fun d hd hpos hle => ?_⟩
  · obtain ⟨hvalid, -, hback⟩ := j2date_spec h h'
    exact ⟨hvalid, hback⟩
  · have hnext := Date.julianDay_next hd
    refine ⟨d.julianDay, (hinverse d hd hpos (by omega)).1, ?_⟩
    rw [← hnext]
    exact (hinverse d.next (Date.valid_next hd) (by omega) hle).1

theorem calendar_bijection_last : date2j (j2date INT_MAX) = some INT_MAX ∧
    j2date (Date.julianDay ⟨-4713, 11, 24⟩) = ⟨-4713, 11, 24⟩ ∧
    ∃ jd, date2j ⟨2000, 2, 28⟩ = some jd ∧ date2j (Date.next ⟨2000, 2, 28⟩) = some (jd + 1) :=
  ⟨(calendar_bijection.1 INT_MAX (by decide) (by decide)).2,
    (calendar_bijection.2.1 ⟨-4713, 11, 24⟩ ⟨by decide, by decide, by decide, by decide⟩ (by decide) (by decide)).2,
    calendar_bijection.2.2 ⟨2000, 2, 28⟩ ⟨by decide, by decide, by decide, by decide⟩ (by decide) (by decide)⟩

end CdcKafka.Datetime
