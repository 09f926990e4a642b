import Orm.Calendar.DateTime

/-
Day numbers and dates. A date is the date of its day number (`Date.ofDays?_days`), and so a point in time
is the one of its timestamp (`DateTime.ofTimestamp?_timestamp`).

Years are counted from March and in eras of 400 years, so that only the last day of a year, of every
fourth year with the exceptions, and of the era is out of the ordinary. The formula for the year takes
these days out before it divides (`Date.yearOfEra_eq`).
-/

namespace Orm.Calendar

namespace Date

/-! ## Years of an era -/

/-- The year `y` of an era has its day `n` in front of it and 365 days, and a leap day every four years. -/
theorem yearOfEra_eq {y n doe : Int} (hy : 0 ≤ y ∧ y < 400) (hn : 0 ≤ n ∧ n ≤ 365)
    (hleap : n = 365 → y % 4 = 3 ∧ (y % 100 ≠ 99 ∨ y = 399))
    (hdoe : doe = y * 365 + y / 4 - y / 100 + n) :
    (doe - doe / 1460 + doe / 36524 - doe / 146096) / 365 = y := by
  -- centuries, groups of four years, and years of a group
  obtain ⟨c, q, r, rfl, hc, hq, hr⟩ : ∃ c q r : Int, y = 100 * c + 4 * q + r ∧ (0 ≤ c ∧ c ≤ 3) ∧
      (0 ≤ q ∧ q ≤ 24) ∧ 0 ≤ r ∧ r ≤ 3 :=
    ⟨y / 100, y % 100 / 4, y % 4, by omega⟩
  have hfours : (100 * c + 4 * q + r) / 4 = 25 * c + q := by omega
  have hcenturies : (100 * c + 4 * q + r) / 100 = c := by omega
  rw [hfours, hcenturies] at hdoe
  -- the quotients differ from the parts of `y` on the last days alone
  have hcentury : doe / 36524 = c ∨
      doe / 36524 = c + 1 ∧ c = 3 ∧ q = 24 ∧ r = 3 ∧ n = 365 := by omega
  have hera : doe / 146096 = 0 ∨ doe / 146096 = 1 ∧ c = 3 ∧ q = 24 ∧ r = 3 ∧ n = 365 := by omega
  have hfour : doe / 1460 = 25 * c + q ∨ doe / 1460 = 25 * c + q + 1 := by omega
  omega

theorem isLeap_iff {y : Int} : isLeap y = true ↔ y % 4 = 0 ∧ (y % 100 ≠ 0 ∨ y % 400 = 0) := by
  simp [isLeap]

/-! ## Days of a year from March -/

theorem monthFromMarch_eq {m n : Int} (hlow : (153 * m + 2) / 5 ≤ n)
    (hhigh : n < (153 * (m + 1) + 2) / 5) : (5 * n + 2) / 153 = m := by
  omega

theorem daysInMonth_le (year : Int) (month : Nat) : daysInMonth year month ≤ daysInMonth 0 month := by
  unfold daysInMonth
  split
  · have hleap : isLeap 0 = true := rfl
    rw [if_pos hleap]
    split <;> decide
  · exact Nat.le_refl _

/-- The formula for the first day of a month leaves room for its days, in a leap year too. -/
theorem month_fits : ∀ m < 13, 1 ≤ m →
    (153 * ((m + 9) % 12) + 2) / 5 + daysInMonth 0 m ≤ (153 * ((m + 9) % 12 + 1) + 2) / 5 ∧
      (153 * ((m + 9) % 12) + 2) / 5 + daysInMonth 0 m ≤ 366 ∧
      ((153 * ((m + 9) % 12) + 2) / 5 + daysInMonth 0 m = 366 → m = 2) := by
  decide

/-- The date of a year `y` of an era and a month `m` from March. -/
theorem ofDays?_march {era y : Int} {m day : Nat} (hy : 0 ≤ y ∧ y < 400) (hday : 1 ≤ day)
    (hmonth : (153 * m + 2) / 5 + day ≤ (153 * (m + 1) + 2) / 5)
    (hlast : (153 * m + 2) / 5 + day ≤ 366)
    (hleap : (153 * m + 2) / 5 + day = 366 → y % 4 = 3 ∧ (y % 100 ≠ 99 ∨ y = 399)) :
    ofDays? (era * 146097 + (y * 365 + y / 4 - y / 100 + ((153 * (m : Int) + 2) / 5 + day - 1)) -
      719468) = of? (y + era * 400 + if m < 10 then 0 else 1) (if m < 10 then m + 3 else m - 9) day := by
  have hstart : ∀ k : Nat, (153 * (k : Int) + 2) / 5 = ((153 * k + 2) / 5 : Nat) := fun _ => rfl
  have hnext := hstart (m + 1)
  obtain ⟨n, hn⟩ : ∃ n, n = (153 * (m : Int) + 2) / 5 + day - 1 := ⟨_, rfl⟩
  obtain ⟨doe, hdoe⟩ : ∃ doe, doe = y * 365 + y / 4 - y / 100 + n := ⟨_, rfl⟩
  have hera : Int.fdiv (era * 146097 + doe - 719468 + 719468) 146097 = era := by
    rw [Int.fdiv_eq_ediv_of_nonneg _ (by decide)]
    omega
  have hdayOfEra : era * 146097 + doe - 719468 + 719468 - era * 146097 = doe := by omega
  have hyear := yearOfEra_eq hy ⟨by omega, by omega⟩ (fun h => hleap (by omega)) hdoe
  have hdayOfYear : doe - (365 * y + y / 4 - y / 100) = n := by omega
  have hmonthFromMarch : (5 * n + 2) / 153 = m := monthFromMarch_eq (by omega) (by omega)
  have hdayOfMonth : n - (153 * (m : Int) + 2) / 5 + 1 = day := by omega
  rw [← hn, ← hdoe]
  simp only [ofDays?, hera, hdayOfEra, hyear, hdayOfYear, hmonthFromMarch, hdayOfMonth,
    Int.toNat_natCast]
  congr 1
  · split <;> split <;> split <;> omega
  · split <;> split <;> omega

/-- A day lies in its month, and only 29 February is the last day of a year from March. -/
theorem day_fits (d : Date) :
    (153 * ((d.month + 9) % 12) + 2) / 5 + d.day ≤ (153 * ((d.month + 9) % 12 + 1) + 2) / 5 ∧
      (153 * ((d.month + 9) % 12) + 2) / 5 + d.day ≤ 366 ∧
      ((153 * ((d.month + 9) % 12) + 2) / 5 + d.day = 366 → d.month = 2 ∧ isLeap d.year = true) := by
  obtain ⟨-, -, hfirst, hlast, -, hdays⟩ := d.valid
  have hlongest := Nat.le_trans hdays (daysInMonth_le d.year d.month)
  obtain ⟨hnext, hend, hfebruary⟩ := month_fits d.month (Nat.lt_succ_of_le hlast) hfirst
  refine ⟨by omega, by omega, fun hlastDay => ?_⟩
  have hmonth := hfebruary (by omega)
  rw [hmonth] at hdays
  cases hleap : isLeap d.year with
  | true => exact ⟨hmonth, rfl⟩
  | false =>
    have hshort : daysInMonth d.year 2 = 28 := by simp [daysInMonth, hleap]
    rw [hmonth] at hlastDay
    omega

/-! ## Dates and timestamps -/

theorem of?_self (d : Date) : of? d.year d.month d.day = some d := dif_pos d.valid

/-- Every date is the date of its day number. -/
theorem ofDays?_days (d : Date) : ofDays? d.days = some d := by
  obtain ⟨-, -, hfirst, hlast, hday, -⟩ := d.valid
  obtain ⟨hnext, hend, hleap⟩ := d.day_fits
  obtain ⟨m, hm⟩ : ∃ m, m = (d.month + 9) % 12 := ⟨_, rfl⟩
  have hm' : ((d.month : Int) + 9) % 12 = m := by omega
  have hmonth : (if m < 10 then m + 3 else m - 9) = d.month := by
    split <;> omega
  have hnew : d.month ≤ 2 ↔ 10 ≤ m := by omega
  obtain ⟨y, hy⟩ : ∃ y, y = (if d.month ≤ 2 then d.year - 1 else d.year) := ⟨_, rfl⟩
  have hera := Int.fdiv_eq_ediv_of_nonneg y (by decide : (0 : Int) ≤ 400)
  rw [← hm] at hnext hend hleap
  unfold days
  simp only [hm', ← hy]
  rw [ofDays?_march (by omega) hday (by omega) (by omega)]
  · have hyear : y - Int.fdiv y 400 * 400 + Int.fdiv y 400 * 400 + (if m < 10 then 0 else 1) =
        d.year := by
      split at hy <;> split <;> omega
    rw [hyear, hmonth, of?_self]
  · intro hlastDay
    obtain ⟨hmonth, hleapYear⟩ := hleap hlastDay
    rw [if_pos (by omega)] at hy
    have := isLeap_iff.1 hleapYear
    omega

end Date

theorem Time.of?_self (t : Time) : of? t.seconds t.nanos = some t := dif_pos t.valid

namespace DateTime

/-- Every point in time is the one of its timestamp. -/
theorem ofTimestamp?_timestamp (t : DateTime) : ofTimestamp? t.timestamp t.time.nanos = some t := by
  obtain ⟨hseconds, -, -⟩ := t.time.valid
  have hday : Int.fdiv t.timestamp 86400 = t.date.days := by
    rw [Int.fdiv_eq_ediv_of_nonneg _ (by decide), timestamp]
    omega
  have hclock : (Int.fmod t.timestamp 86400).toNat = t.time.seconds := by
    rw [Int.fmod_eq_emod_of_nonneg _ (by decide), timestamp]
    omega
  simp only [ofTimestamp?, hday, hclock, Date.ofDays?_days, Time.of?_self]
  rfl

theorem toUtc?_zero (t : DateTime) : t.toUtc? 0 = some t := by
  rw [toUtc?, Int.sub_zero, ofTimestamp?_timestamp]

end DateTime

end Orm.Calendar
