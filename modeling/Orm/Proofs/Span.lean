import Orm.Postgres.Binding
import Orm.Proofs.Number.Numeral
import Orm.Sqlite

/-
Durations as 64-bit numbers. Both engines are sent the microseconds of a duration, and the greatest
number for a duration that has too many of them, on either side of zero.

So numbers are ordered as their durations but for those that reach too far into the past, which are
bound as the longest ones ahead (`sent_ordered`, `longPast_sent`).
-/

namespace Orm

open Number (IntRange)

namespace Calendar.Duration

/-- The number that is sent for a duration. -/
def sent (d : Duration) : Int64 :=
  if (IntRange.signed 64).contains d.micros then Int64.ofInt d.micros else Int64.maxValue

theorem ofDuration_eq (d : Duration) : Sqlite.Cell.ofDuration d = .integer d.sent := rfl

theorem duration_eq (d : Duration) : Postgres.duration d = .int64 d.sent := by
  rw [Postgres.duration, sent, apply_ite Int64.ofInt]
  rfl

theorem toInt_sent {d : Duration} (hlow : -2 ^ 63 ≤ d.micros) :
    d.sent.toInt = min d.micros (2 ^ 63 - 1) := by
  rw [sent]
  split
  · rename_i hfits
    have hrange := (IntRange.signed_contains_iff 64).1 hfits
    rw [Int64.toInt_ofInt_of_le hrange.1 hrange.2]
    omega
  · rename_i hfits
    have hhigh : ¬d.micros < 2 ^ 63 := fun h => hfits ((IntRange.signed_contains_iff 64).2 ⟨hlow, h⟩)
    rw [Int64.toInt_maxValue]
    omega

theorem sent_of_longPast {d : Duration} (hlow : d.micros < -2 ^ 63) : d.sent = Int64.maxValue := by
  have hfits : ¬(IntRange.signed 64).contains d.micros = true := by
    rw [IntRange.signed_contains_iff 64]
    omega
  rw [sent, if_neg hfits]

theorem micros_mono {a b : Duration} (h : a.nanos ≤ b.nanos) : a.micros ≤ b.micros :=
  Int.tdiv_le_tdiv (by decide) h

/-- Among the numbers of durations that do not reach too far into the past the order is kept. -/
theorem sent_mono {a b : Duration} (h : a.nanos ≤ b.nanos) (hlow : -2 ^ 63 ≤ a.micros) :
    a.sent ≤ b.sent := by
  have hmicros := micros_mono h
  rw [Int64.le_iff_toInt_le, toInt_sent hlow, toInt_sent (Int.le_trans hlow hmicros)]
  omega

theorem sent_le_iff {a b : Duration} (h : a.nanos ≤ b.nanos) :
    a.sent ≤ b.sent ↔ -2 ^ 63 ≤ a.micros ∨ b.sent = Int64.maxValue := by
  by_cases hlow : -2 ^ 63 ≤ a.micros
  · exact iff_of_true (sent_mono h hlow) (.inl hlow)
  · rw [sent_of_longPast (Int.not_le.1 hlow)]
    constructor
    · intro hle
      exact .inr (Int64.le_antisymm b.sent.le_maxValue hle)
    · rintro (hge | heq)
      · exact absurd hge hlow
      · exact heq ▸ Int64.le_refl _

/-- A number above zero stands for a negative duration only if the duration is too long. -/
theorem sent_pos_iff {d : Duration} (h : d.nanos < 0) : 0 < d.sent ↔ d.micros < -2 ^ 63 := by
  constructor
  · intro hpos
    refine Int.not_le.1 fun hlow => ?_
    have hnonpos : d.sent ≤ zero.sent := sent_mono (b := zero) (Int.le_of_lt h) hlow
    exact Int64.not_le.2 hpos hnonpos
  · intro hlow
    rw [sent_of_longPast hlow]
    decide

/--
The numbers that an engine is sent for two durations are ordered as these, if and only if the shorter is
not too long a time ago for 64 bits, or the longer one is sent as the greatest number too. Only a
duration that is too long a time ago is negative and sent as a positive number.
-/
theorem sent_ordered {a b : Duration} (h : a.nanos ≤ b.nanos) (t : Postgres.SqlType) :
    ∃ m n : Int64,
      (Sqlite.Cell.ofValue (.duration a) = .integer m ∧
        Sqlite.Cell.ofValue (.duration b) = .integer n) ∧
      (Postgres.bind (.duration a) t = .ok (.int64 m) ∧
        Postgres.bind (.duration b) t = .ok (.int64 n)) ∧
      (m ≤ n ↔ -2 ^ 63 ≤ a.micros ∨ n = Int64.maxValue) ∧
      (a.nanos < 0 → (0 < m ↔ a.micros < -2 ^ 63)) := by
  refine ⟨a.sent, b.sent, ⟨ofDuration_eq a, ofDuration_eq b⟩, ⟨?_, ?_⟩, sent_le_iff h, sent_pos_iff⟩
  · rw [Postgres.bind, duration_eq]
  · rw [Postgres.bind, duration_eq]

/-- One microsecond more than 64 bits hold, before now. -/
def longPast : Duration := ⟨-9223372036854775809000, by decide⟩

/-- The longest time ago that has a number of its own. -/
def farPast : Duration := ⟨-9223372036854775808999, by decide⟩

/-- The two ends of the numbers are reached in order. -/
theorem farPast_ordered : farPast.nanos ≤ zero.nanos ∧ farPast.nanos < 0 ∧
    Sqlite.Cell.ofValue (.duration farPast) = .integer Int64.minValue ∧
    ∃ m n : Int64,
      (Sqlite.Cell.ofValue (.duration farPast) = .integer m ∧
        Sqlite.Cell.ofValue (.duration zero) = .integer n) ∧
      (Postgres.bind (.duration farPast) .int8 = .ok (.int64 m) ∧
        Postgres.bind (.duration zero) .int8 = .ok (.int64 n)) ∧
      (m ≤ n ↔ -2 ^ 63 ≤ farPast.micros ∨ n = Int64.maxValue) ∧
      (farPast.nanos < 0 → (0 < m ↔ farPast.micros < -2 ^ 63)) :=
  ⟨by decide, by decide, by decide, sent_ordered (by decide) .int8⟩

/-- A time too long ago is sent as the longest time ahead, and so after no time at all. -/
theorem longPast_sent : longPast.nanos < farPast.nanos ∧
    Sqlite.Cell.ofValue (.duration longPast) = .integer Int64.maxValue ∧
    Sqlite.Cell.ofValue (.duration farPast) = .integer Int64.minValue ∧
    Postgres.bind (.duration longPast) .int8 = .ok (.int64 Int64.maxValue) ∧
    Postgres.bind (.duration farPast) .int8 = .ok (.int64 Int64.minValue) ∧
    ¬Int64.maxValue ≤ Int64.minValue := by
  refine ⟨by decide, by decide, by decide, ?_, ?_, by decide⟩
  · rw [Postgres.bind, duration_eq]
    rfl
  · rw [Postgres.bind, duration_eq]
    rfl

end Calendar.Duration

end Orm
