import OpenMasu.Instant

/-!
# Dates of days

The date of a day number is found by eras of four hundred years that begin in
March.  The month and the day it yields exist in the calendar, and the years
of four digits end where they should.

* `dayOfYear_bounds` — a day of an era lies in its year;
* `monthOfDay` — a day of a year lies in its month;
* `civilFromDays_parts` — the parts of a date;
* `year_civilFromDays` — the days whose year has four digits;
* `civilFromDays_calendar` — the date of a day exists.
-/

namespace OpenMasu

/-- The year of the era, by centuries, four-year spans and years of a span. -/
theorem yearOfEra_eq {c q s k : Int} (hc : 0 ≤ c ∧ c ≤ 3) (hq : 0 ≤ q ∧ q ≤ 24)
    (hs : 0 ≤ s ∧ s ≤ 1460) (hlast : 1461 * q + s ≤ 36523)
    (hk : 0 ≤ k ∧ k ≤ 3) (hlow : 365 * k ≤ s) (hhigh : s < 365 * (k + 1) ∨ k = 3) :
    (36524 * c + 1461 * q + s - (36524 * c + 1461 * q + s) / 1460
      + (36524 * c + 1461 * q + s) / 36524 - (36524 * c + 1461 * q + s) / 146096) / 365
        = 100 * c + 4 * q + k := by
  have hcentury : (36524 * c + 1461 * q + s) / 36524 = c := by
    rw [Int.add_assoc, Int.mul_add_ediv_left _ _ (by omega), Int.ediv_eq_zero_of_lt (by omega) (by omega),
      Int.add_zero]
  have hera : (36524 * c + 1461 * q + s) / 146096 = 0 :=
    Int.ediv_eq_zero_of_lt (by omega) (by omega)
  have hspan : (36524 * c + 1461 * q + s) / 1460 = 25 * c + q + (24 * c + q + s) / 1460 := by
    have hsplit : 36524 * c + 1461 * q + s = 1460 * (25 * c + q) + (24 * c + q + s) := by omega
    rw [hsplit, Int.mul_add_ediv_left _ _ (by omega)]
  rw [hcentury, hera, hspan]
  obtain ⟨f, hf⟩ : ∃ f, f = (24 * c + q + s) / 1460 := ⟨_, rfl⟩
  rw [← hf]
  have hsplit : 36524 * c + 1461 * q + s - (25 * c + q + f) + c - 0
      = 365 * (100 * c + 4 * q) + (s - f) := by omega
  rw [hsplit, Int.mul_add_ediv_left _ _ (by omega)]
  have hrest : (s - f) / 365 = k := by
    have hover : 0 ≤ f ∧ f ≤ 1 := by omega
    have hone : f = 1 → 1364 ≤ s := by omega
    have hleap : s = 1460 → f = 1 := by omega
    clear hf
    omega
  rw [hrest]

/-- The days before the year `y` of an era. -/
def daysBeforeYear (y : Int) : Int := 365 * y + y / 4 - y / 100

/-- A span of years of the era starts behind the spans before it. -/
theorem daysBeforeYear_eq {c q k : Int} (hq : 0 ≤ q ∧ q ≤ 24) (hk : 0 ≤ k ∧ k ≤ 3) :
    daysBeforeYear (100 * c + 4 * q + k) = 36524 * c + 1461 * q + 365 * k := by
  have hfour : (100 * c + 4 * q + k) / 4 = 25 * c + q := by omega
  have hhundred : (100 * c + 4 * q + k) / 100 = c := by omega
  rw [daysBeforeYear, hfour, hhundred]
  omega

/-- A day of an era lies in its year: its number in the year is at most 365,
and 365 in the leap years only. -/
theorem dayOfYear_bounds {d : Int} (hlow : 0 ≤ d) (hhigh : d ≤ 146096) :
    ∃ y, y = (d - d / 1460 + d / 36524 - d / 146096) / 365 ∧ 0 ≤ y ∧ y ≤ 399 ∧
      daysBeforeYear y ≤ d ∧ d - daysBeforeYear y ≤ 365 ∧
      (d - daysBeforeYear y = 365 → (y + 1) % 4 = 0 ∧ ((y + 1) % 100 ≠ 0 ∨ (y + 1) % 400 = 0)) := by
  by_cases hend : d = 146096
  · subst hend
    exact ⟨399, by decide⟩
  · obtain ⟨c, hc⟩ : ∃ c, c = d / 36524 := ⟨_, rfl⟩
    obtain ⟨q, hq⟩ : ∃ q, q = (d - 36524 * c) / 1461 := ⟨_, rfl⟩
    obtain ⟨s, hs⟩ : ∃ s, d = 36524 * c + 1461 * q + s := ⟨d - 36524 * c - 1461 * q, by omega⟩
    obtain ⟨k, hk⟩ : ∃ k, k = if s < 1095 then s / 365 else 3 := ⟨_, rfl⟩
    have hcb : 0 ≤ c ∧ c ≤ 3 := by omega
    have hqb : 0 ≤ q ∧ q ≤ 24 := by omega
    have hsb : 0 ≤ s ∧ s ≤ 1460 := by omega
    have hlast : 1461 * q + s ≤ 36523 := by omega
    clear hc hq hlow hhigh hend
    have hkb : 0 ≤ k ∧ k ≤ 3 := by split at hk <;> omega
    have hkl : 365 * k ≤ s := by split at hk <;> omega
    have hkh : s < 365 * (k + 1) ∨ k = 3 := by split at hk <;> omega
    clear hk
    refine ⟨100 * c + 4 * q + k, ?_, by omega, by omega, ?_⟩
    · rw [hs, yearOfEra_eq hcb hqb hsb hlast hkb hkl hkh]
    · rw [daysBeforeYear_eq hqb hkb, hs]
      refine ⟨by omega, by omega, fun h => ?_⟩
      have hk3 : k = 3 := by omega
      have hq24 : q ≤ 23 := by omega
      omega

/-- The day of a year counted from March, by its month. -/
theorem monthOfDay {n m : Int} (hn : 0 ≤ n ∧ n ≤ 365) (hm : m = (5 * n + 2) / 153) :
    0 ≤ m ∧ m ≤ 11 ∧ 0 ≤ n - (153 * m + 2) / 5 ∧ n - (153 * m + 2) / 5 ≤ 30 ∧
      (m = 1 ∨ m = 3 ∨ m = 6 ∨ m = 8 → n - (153 * m + 2) / 5 ≤ 29) ∧
      (m = 11 → n - (153 * m + 2) / 5 = n - 337) ∧ (m < 10 ↔ n < 306) := by
  have hbounds : 0 ≤ m ∧ m ≤ 11 := by omega
  have hcases : m = 0 ∨ m = 1 ∨ m = 2 ∨ m = 3 ∨ m = 4 ∨ m = 5 ∨ m = 6 ∨ m = 7 ∨ m = 8 ∨ m = 9 ∨
      m = 10 ∨ m = 11 := by omega
  rcases hcases with h | h | h | h | h | h | h | h | h | h | h | h <;>
    · subst h
      omega

/-- The parts of the date of a day. -/
theorem civilFromDays_parts (days : Int) :
    ∃ era y n, days + 719468 = 146097 * era + daysBeforeYear y + n ∧ 0 ≤ y ∧ y ≤ 399 ∧
      0 ≤ n ∧ n ≤ 365 ∧
      (n = 365 → (y + 1) % 4 = 0 ∧ ((y + 1) % 100 ≠ 0 ∨ (y + 1) % 400 = 0)) ∧
      civilFromDays days = (y + era * 400 + (if n < 306 then 0 else 1),
        (if n < 306 then (5 * n + 2) / 153 + 3 else (5 * n + 2) / 153 - 9).toNat,
        (n - (153 * ((5 * n + 2) / 153) + 2) / 5 + 1).toNat) := by
  obtain ⟨era, hera⟩ : ∃ era, era = (days + 719468) / 146097 := ⟨_, rfl⟩
  obtain ⟨d, hd⟩ : ∃ d, d = days + 719468 - era * 146097 := ⟨_, rfl⟩
  obtain ⟨y, hy, hylow, hyhigh, hlow, hhigh, hleap⟩ := dayOfYear_bounds (d := d) (by omega) (by omega)
  refine ⟨era, y, d - daysBeforeYear y, by omega, hylow, hyhigh, by omega, hhigh, hleap, ?_⟩
  have hn : d - (365 * y + y / 4 - y / 100) = d - daysBeforeYear y := rfl
  simp only [civilFromDays, ← hera, ← hd, ← hy, hn]
  obtain ⟨hm0, hm11, -, -, -, -, hten⟩ := monthOfDay (n := d - daysBeforeYear y) ⟨by omega, hhigh⟩ rfl
  generalize d - daysBeforeYear y = n at hm0 hm11 hten
  generalize (5 * n + 2) / 153 = m at hm0 hm11 hten
  by_cases hmarch : n < 306
  · have hmonth : ¬m + 3 ≤ 2 := by omega
    rw [if_pos (hten.mpr hmarch), if_pos hmarch, if_pos hmarch, if_neg hmonth]
  · have hmonth : m - 9 ≤ 2 := by omega
    rw [if_neg (fun h => hmarch (hten.mp h)), if_neg hmarch, if_neg hmarch, if_pos hmonth]

/-- The year of a day after 1970 has four digits up to the end of 9999. -/
theorem year_civilFromDays {days : Int} (h : 0 ≤ days) :
    0 ≤ (civilFromDays days).1 ∧ ((civilFromDays days).1 ≤ 9999 ↔ days ≤ 2932896) := by
  obtain ⟨era, y, n, hdays, hy0, hy1, hn0, hn1, -, hdate⟩ := civilFromDays_parts days
  rw [hdate]
  have hbefore : 0 ≤ daysBeforeYear y ∧ (y ≤ 398 → daysBeforeYear y ≤ 145366) ∧
      (y = 399 → daysBeforeYear y = 145731) := by
    rw [daysBeforeYear]
    omega
  by_cases hmarch : n < 306
  · simp only [if_pos hmarch]
    omega
  · simp only [if_neg hmarch]
    omega

/-- The month and the day of a date are those of the calendar. -/
theorem civilFromDays_calendar {days : Int} (h : 0 ≤ days) :
    1 ≤ (civilFromDays days).2.1 ∧ (civilFromDays days).2.1 ≤ 12 ∧ 1 ≤ (civilFromDays days).2.2 ∧
      (civilFromDays days).2.2 ≤ daysInMonth (civilFromDays days).1.toNat (civilFromDays days).2.1 := by
  obtain ⟨hyear, -⟩ := year_civilFromDays h
  obtain ⟨era, y, n, hdays, hy0, hy1, hn0, hn1, hleap, hdate⟩ := civilFromDays_parts days
  rw [hdate] at hyear ⊢
  obtain ⟨hm0, hm11, hd0, hd30, hshort, hfeb, hten⟩ := monthOfDay ⟨hn0, hn1⟩ rfl
  simp only at hyear ⊢
  generalize (5 * n + 2) / 153 = m at hm0 hm11 hd0 hd30 hshort hfeb hten
  generalize hrest : n - (153 * m + 2) / 5 = d at hd0 hd30 hshort hfeb
  by_cases hmarch : n < 306
  · rw [if_pos hmarch, if_pos hmarch] at *
    rw [daysInMonth]
    split
    · omega
    · split <;> omega
  · rw [if_neg hmarch, if_neg hmarch] at *
    rw [daysInMonth]
    split
    · split
      · omega
      · have hshortYear : n ≠ 365 := fun h => by
          have := hleap h
          omega
        omega
    · split <;> omega

end OpenMasu
