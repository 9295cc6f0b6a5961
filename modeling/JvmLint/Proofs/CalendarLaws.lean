import JvmLint.Time.Calendar
import Mathlib.Tactic.IntervalCases

/-!
# Laws of the calendar

A year that begins in March has its leap day at the end, so that all its months but the last have a fixed
place in it. Days and dates are in one-to-one correspondence, and later days have later dates.
-/

namespace JvmLint.Date

/-! ## Years from March -/

def yearStart (y : Int) : Int := y / 400 * 146097 + y % 400 * 365 + y % 400 / 4 - y % 400 / 100

def marchYear (d : Date) : Int := if d.month ≤ 2 then d.year - 1 else d.year

def marchMonth (d : Date) : Nat := (d.month + 9) % 12

def monthStart (m : Int) : Int := (153 * m + 2) / 5

def dayOfYear (d : Date) : Int := monthStart d.marchMonth + d.day - 1

theorem toDays_eq (d : Date) : d.toDays = yearStart d.marchYear + d.dayOfYear - 719468 := rfl

theorem yearStart_eq (y : Int) : yearStart y = 365 * y + y / 4 - y / 100 + y / 400 := by
  unfold yearStart
  omega

theorem isLeap_iff {y : Int} : isLeap y = true ↔ y % 4 = 0 ∧ (y % 100 ≠ 0 ∨ y % 400 = 0) := by
  simp [isLeap]

/-- A year from March is as long as the year in which it ends. -/
theorem yearStart_succ (y : Int) : yearStart (y + 1) = yearStart y + if isLeap (y + 1) then 366 else 365 := by
  rw [yearStart_eq, yearStart_eq]
  split
  · rename_i hleap
    rw [isLeap_iff] at hleap
    omega
  · rename_i hleap
    rw [isLeap_iff] at hleap
    omega

theorem yearStart_mono {y z : Int} (h : y ≤ z) : yearStart y ≤ yearStart z := by
  induction z, h using Int.leInduction with
  | base => exact le_refl _
  | succ z _ ih =>
    rw [yearStart_succ]
    split <;> omega

/-! ## Dates -/

structure Valid (d : Date) : Prop where
  month_pos : 1 ≤ d.month
  month_le : d.month ≤ 12
  day_pos : 1 ≤ d.day
  day_le : d.day ≤ monthLength d.year d.month

theorem monthLength_eq {y : Int} {m : Nat} (hpos : 1 ≤ m) (hle : m ≤ 12) (hm : m ≠ 2) :
    (monthLength y m : Int) = monthStart (((m + 9) % 12 : Nat) + 1) - monthStart ((m + 9) % 12 : Nat) := by
  interval_cases m
  all_goals first | contradiction | rfl

theorem monthLength_february (y : Int) : monthLength y 2 = if isLeap y then 29 else 28 := rfl

theorem monthLength_le (y : Int) (m : Nat) : monthLength y m ≤ 31 := by
  unfold monthLength
  split
  · split <;> decide
  · split <;> decide

theorem Valid.dayOfYear_lt_month {d : Date} (h : d.Valid) (hm : d.month ≠ 2) :
    d.dayOfYear < monthStart (d.marchMonth + 1) := by
  have hlength := monthLength_eq (y := d.year) h.month_pos h.month_le hm
  have hday := h.day_le
  unfold dayOfYear marchMonth
  omega

theorem Valid.dayOfYear_lt_year {d : Date} (h : d.Valid) :
    d.dayOfYear < if isLeap (d.marchYear + 1) then 366 else 365 := by
  have hday := h.day_le
  by_cases hm : d.month = 2
  · have hyear : d.marchYear + 1 = d.year := by simp [marchYear, hm]
    have hmonth : d.marchMonth = 11 := by simp [marchMonth, hm]
    rw [hm, monthLength_february] at hday
    rw [hyear, dayOfYear, hmonth, monthStart]
    split at hday <;> simp_all <;> omega
  · have hmonth := h.dayOfYear_lt_month hm
    have hle : (d.marchMonth : Int) ≤ 10 := by
      have := h.month_le
      have := h.month_pos
      unfold marchMonth
      omega
    unfold monthStart at hmonth
    split <;> omega

def Before (a b : Date) : Prop :=
  a.year < b.year ∨ a.year = b.year ∧ (a.month < b.month ∨ a.month = b.month ∧ a.day < b.day)

theorem before_trichotomy (a b : Date) : a.Before b ∨ a = b ∨ b.Before a := by
  obtain ⟨y, m, d⟩ := a
  obtain ⟨y', m', d'⟩ := b
  simp only [Before, mk.injEq]
  omega

theorem Before.march {a b : Date} (ha : a.Valid) (hb : b.Valid) (h : a.Before b) :
    a.marchYear < b.marchYear ∨ a.marchYear = b.marchYear ∧ a.dayOfYear < b.dayOfYear := by
  by_cases hyear : a.marchYear < b.marchYear
  · exact .inl hyear
  · have hbounds := And.intro (And.intro ha.month_pos ha.month_le) (And.intro hb.month_pos hb.month_le)
    have hsame : a.marchYear = b.marchYear ∧
        (a.marchMonth < b.marchMonth ∨ a.marchMonth = b.marchMonth ∧ a.day < b.day) := by
      unfold marchYear at hyear ⊢
      unfold marchMonth
      unfold Before at h
      split at hyear <;> split at hyear <;> simp_all <;> omega
    refine .inr ⟨hsame.1, ?_⟩
    rcases hsame.2 with hmonth | ⟨hmonth, hday⟩
    · have hfebruary : a.month ≠ 2 := by
        intro h2
        unfold marchMonth at hmonth
        omega
      have hend := ha.dayOfYear_lt_month hfebruary
      have hstart : monthStart (a.marchMonth + 1) ≤ monthStart b.marchMonth := by
        unfold monthStart
        omega
      have hday := hb.day_pos
      have hb' : b.dayOfYear = monthStart b.marchMonth + b.day - 1 := rfl
      omega
    · unfold dayOfYear
      rw [hmonth]
      omega

theorem Before.toDays_lt {a b : Date} (ha : a.Valid) (hb : b.Valid) (h : a.Before b) : a.toDays < b.toDays := by
  rw [toDays_eq, toDays_eq]
  rcases h.march ha hb with hyear | ⟨hyear, hday⟩
  · have hend : yearStart a.marchYear + a.dayOfYear < yearStart (a.marchYear + 1) := by
      have := ha.dayOfYear_lt_year
      rw [yearStart_succ]
      omega
    have hmono : yearStart (a.marchYear + 1) ≤ yearStart b.marchYear := yearStart_mono hyear
    have hpos : 0 ≤ b.dayOfYear := by
      have := hb.day_pos
      unfold dayOfYear monthStart
      omega
    omega
  · rw [hyear]
    omega

/-! ## Dates of days -/

/-- The place of a day in a period of 400 years: centuries, then groups of four years, then years. Only
the last year of a group can have a day 365, and not the last group of a century unless that is the last
century. -/
theorem era_cases {day : Int} (hpos : 0 ≤ day) (hlt : day < 146097) :
    ∃ q p j left : Int, (0 ≤ q ∧ q ≤ 3) ∧ (0 ≤ p ∧ p ≤ 24) ∧ (0 ≤ j ∧ j ≤ 3) ∧ (0 ≤ left ∧ left ≤ 365) ∧
      (left = 365 → j = 3 ∧ (p = 24 → q = 3)) ∧ day = 36524 * q + 1461 * p + 365 * j + left ∧
      (day - day / 1460 + day / 36524 - day / 146096) / 365 = 100 * q + 4 * p + j := by
  obtain ⟨q, hq⟩ : ∃ q, q = min 3 (day / 36524) := ⟨_, rfl⟩
  obtain ⟨p, hp⟩ : ∃ p, p = (day - 36524 * q) / 1461 := ⟨_, rfl⟩
  obtain ⟨s, hs⟩ : ∃ s, s = (day - 36524 * q) % 1461 := ⟨_, rfl⟩
  obtain ⟨j, hj⟩ : ∃ j, j = min 3 (s / 365) := ⟨_, rfl⟩
  have hq3 : 0 ≤ q ∧ q ≤ 3 := by omega
  have hp24 : 0 ≤ p ∧ p ≤ 24 := by omega
  have hs1460 : 0 ≤ s ∧ s ≤ 1460 := by omega
  have hj3 : 0 ≤ j ∧ j ≤ 3 := by omega
  have hday : day = 36524 * q + 1461 * p + s := by omega
  have hlast : s = 1460 → p = 24 → q = 3 := by omega
  refine ⟨q, p, j, s - 365 * j, hq3, hp24, hj3, by omega, by omega, by omega, ?_⟩
  have hgroups : day / 1460 = 25 * q + p + (24 * q + p + s) / 1460 := by omega
  have hcenturies : day / 36524 - day / 146096 = q := by omega
  omega

def ofMarch (y left : Int) : Date :=
  let month := (5 * left + 2) / 153
  let civil := if month < 10 then month + 3 else month - 9
  { year := y + (if civil ≤ 2 then 1 else 0), month := civil.toNat, day := (left - monthStart month + 1).toNat }

theorem exists_ofMarch (days : Int) :
    ∃ y left, ofDays days = ofMarch y left ∧ (0 ≤ left ∧ left ≤ 365) ∧ (left = 365 → isLeap (y + 1)) ∧
      yearStart y + left = days + 719468 := by
  obtain ⟨era, hera⟩ : ∃ era, era = (days + 719468) / 146097 := ⟨_, rfl⟩
  obtain ⟨day, hday⟩ : ∃ day, day = (days + 719468) % 146097 := ⟨_, rfl⟩
  have hdays : days + 719468 = era * 146097 + day := by omega
  obtain ⟨q, p, j, left, hq, hp, hj, hleft, hlast, hplace, hyear⟩ := era_cases (show 0 ≤ day by omega) (by omega)
  have hrest : day - (365 * (100 * q + 4 * p + j) + (100 * q + 4 * p + j) / 4 - (100 * q + 4 * p + j) / 100) = left := by
    clear hera hday hyear hdays
    omega
  have hstart : yearStart (era * 400 + (100 * q + 4 * p + j)) = era * 146097 + 36524 * q + 1461 * p + 365 * j := by
    clear hera hday hyear hdays hplace hlast
    rw [yearStart_eq]
    omega
  refine ⟨era * 400 + (100 * q + 4 * p + j), left, ?_, hleft, ?_, by omega⟩
  · simp only [ofDays, ofMarch, ← hera, ← hday, hyear, hrest, monthStart]
  · intro h365
    obtain ⟨hj3, hp24⟩ := hlast h365
    clear hera hday hyear hdays hplace hrest hstart
    rw [isLeap_iff]
    omega

section
variable {y left : Int} (h : 0 ≤ left ∧ left ≤ 365)
include h

theorem marchMonth_ofMarch : ((ofMarch y left).marchMonth : Int) = (5 * left + 2) / 153 := by
  simp only [marchMonth, ofMarch]
  split <;> omega

theorem marchYear_ofMarch : (ofMarch y left).marchYear = y := by
  simp only [marchYear, ofMarch]
  split <;> split <;> omega

theorem dayOfYear_ofMarch : (ofMarch y left).dayOfYear = left := by
  rw [dayOfYear, marchMonth_ofMarch h]
  simp only [ofMarch, monthStart]
  omega

theorem valid_ofMarch (hlast : left = 365 → isLeap (y + 1)) : (ofMarch y left).Valid := by
  have hday := dayOfYear_ofMarch (y := y) h
  have hmonth := marchMonth_ofMarch (y := y) h
  have hpos : 1 ≤ (ofMarch y left).month ∧ (ofMarch y left).month ≤ 12 := by
    simp only [ofMarch]
    split <;> omega
  refine ⟨hpos.1, hpos.2, ?_, ?_⟩
  · simp only [ofMarch, monthStart]
    omega
  · by_cases hm : (ofMarch y left).month = 2
    · -- the last month: it is longer by a day in leap years, when the year from March has a day 365
      have hm11 : (5 * left + 2) / 153 = 11 := by
        simp only [ofMarch] at hm
        split at hm <;> omega
      have hyear : (ofMarch y left).year = y + 1 := by simp [ofMarch, hm11]
      rw [dayOfYear, hmonth, hm11, monthStart] at hday
      rw [hm, monthLength_february, hyear]
      split
      · omega
      · rename_i hleap
        have hne : left ≠ 365 := fun h365 => hleap (hlast h365)
        omega
    · have hlength := monthLength_eq (y := (ofMarch y left).year) hpos.1 hpos.2 hm
      have hend : left < monthStart ((5 * left + 2) / 153 + 1) := by
        unfold monthStart
        omega
      rw [← marchMonth, hmonth] at hlength
      rw [dayOfYear, hmonth] at hday
      omega

end

theorem toDays_ofDays (days : Int) : (ofDays days).toDays = days := by
  obtain ⟨y, left, hdate, hleft, -, hdays⟩ := exists_ofMarch days
  rw [toDays_eq, hdate, marchYear_ofMarch hleft, dayOfYear_ofMarch hleft]
  omega

theorem valid_ofDays (days : Int) : (ofDays days).Valid := by
  obtain ⟨y, left, hdate, hleft, hlast, -⟩ := exists_ofMarch days
  rw [hdate]
  exact valid_ofMarch hleft hlast

theorem before_ofDays {a b : Int} (h : a < b) : (ofDays a).Before (ofDays b) := by
  rcases before_trichotomy (ofDays a) (ofDays b) with hab | heq | hba
  · exact hab
  · have hdays := congrArg toDays heq
    rw [toDays_ofDays, toDays_ofDays] at hdays
    omega
  · have hdays := hba.toDays_lt (valid_ofDays b) (valid_ofDays a)
    rw [toDays_ofDays, toDays_ofDays] at hdays
    omega

end JvmLint.Date
