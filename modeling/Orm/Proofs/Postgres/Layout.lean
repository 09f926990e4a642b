import Orm.Postgres.Format
import Orm.Proofs.Chronology.Order
import Orm.Proofs.Postgres.Numeric
import Orm.Proofs.Storage

/-
Data come back from their bytes.

`Parameter.column` is the value that a parameter is for its column, and `Parameter.Undone` says that its
bytes are read as that value. This holds of numbers, texts, bytes and identifiers, of all dates, and of
times in whole microseconds (`undone_date`, `undone_timestamp`, `undone_time`), but not in a leap second: its
microseconds are those of the second behind it.
-/

namespace Orm

namespace Uuid

theorem bytes_eq (u : Uuid) : u.bytes = Number.bigEndian 16 u.value.toNat :=
  (Number.bigEndian_eq_map 16 _).symm

theorem ofBytes?_bytes (u : Uuid) : ofBytes? u.bytes = some u := by
  have hvalue : Number.ofBigEndian (Number.bigEndian 16 u.value.toNat) = u.value.toNat :=
    Number.ofBigEndian_bigEndian u.value.isLt
  rw [Number.ofBigEndian] at hvalue
  rw [bytes_eq, ofBytes?, if_pos (Number.length_bigEndian _ _), hvalue, BitVec.ofNat_toNat,
    BitVec.setWidth_eq]

end Uuid

namespace Calendar

/-- The days of all years that dates are kept for. -/
theorem Date.days_bounds (d : Date) : -97000000 < d.days ∧ d.days < 97000000 := by
  obtain ⟨hfirst, hlast, -, -, -, -⟩ := d.valid
  obtain ⟨-, hend, -⟩ := d.day_fits
  have hyear : d.year - 1 ≤ d.marchYear ∧ d.marchYear ≤ d.year := by
    unfold marchYear
    split <;> omega
  rw [← marchDay] at hend
  rw [days_eq, marchDays]
  simp only [minYear, maxYear] at hfirst hlast
  omega

end Calendar

namespace Postgres

open Calendar (DateTime Date Time second)
open Number (Fixed signedBigEndian)

/-! ## What a parameter stands for -/

namespace Parameter

/-- The value that a column of the parameter's kind has for it. -/
def column : Parameter → Value
  | .absent _ => .null
  | .bool b => .bool b
  | .int16 n => .int (Int64.ofInt n.toInt)
  | .int32 n => .int (Int64.ofInt n.toInt)
  | .int64 n => .int n
  | .single x => .float x.toSingle
  | .double x => .float x
  | .decimal x => .string x.text
  | .text s => .string s
  | .bytes b => .bytes b
  | .uuid u => .uuid u
  | .date d => .date d
  | .timestamp t => .dateTime t
  | .instant t => .instant t
  | .time t => .time t
  | .json j => .json j

/-- Decoding undoes the encoding of the parameter as a type. -/
def Undone (t : SqlType) (p : Parameter) : Prop :=
  ∀ bytes, p.encode t = some bytes → p.kind.decode? t bytes = some p.column

variable (t : SqlType)

theorem undone_absent (k : Kind) : Undone t (.absent k) := nofun

/-- All other parameters have bytes. -/
theorem undone_iff {p : Parameter} {bytes : List UInt8} (h : p.encode t = some bytes) :
    p.Undone t ↔ p.kind.decode? t bytes = some p.column :=
  ⟨fun hundone => hundone bytes h, fun hread _ hbytes => Option.some.inj (h.symm.trans hbytes) ▸ hread⟩

theorem undone_bool (b : Bool) : Undone t (.bool b) := by
  rw [undone_iff t rfl]
  cases b <;> rfl

/-! ## Numbers -/

/-- A kind that is laid out as a whole number. -/
theorem decode?_int {k : Kind} {width : Nat} {n : Int}
    (hk : ∀ bytes, k.decode? t bytes =
      (Number.signed? width bytes).map fun n => .int (Int64.ofInt n))
    (hlow : -(256 ^ width : Nat) ≤ 2 * n) (hhigh : 2 * n < (256 ^ width : Nat)) :
    k.decode? t (signedBigEndian width n) = some (.int (Int64.ofInt n)) := by
  rw [hk, Number.signed?_signedBigEndian hlow hhigh, Option.map_some]

theorem undone_int16 (n : Int16) : Undone t (.int16 n) := by
  have hlow := n.le_toInt
  have hhigh := n.toInt_lt
  rw [undone_iff t rfl]
  exact decode?_int t (fun _ => rfl) (by omega) (by omega)

theorem undone_int32 (n : Int32) : Undone t (.int32 n) := by
  have hlow := n.le_toInt
  have hhigh := n.toInt_lt
  rw [undone_iff t rfl]
  exact decode?_int t (fun _ => rfl) (by omega) (by omega)

theorem undone_int64 (n : Int64) : Undone t (.int64 n) := by
  have hlow := n.le_toInt
  have hhigh := n.toInt_lt
  have hread := decode?_int t (k := .int64) (fun _ => rfl) (n := n.toInt) (by omega) (by omega)
  rw [Int64.ofInt_toInt] at hread
  rw [undone_iff t rfl]
  exact hread

theorem undone_decimal (n : Int64) : Undone t (.decimal (.ofInt64 n)) := by
  have hsign : (Fixed.ofInt64 n).mantissa = 0 → (Fixed.ofInt64 n).negative = false := by
    simp only [Fixed.ofInt64, decide_eq_false_iff_not]
    omega
  rw [undone_iff t rfl]
  simp only [kind, Kind.decode?, Numeric.read_whole rfl hsign, Option.map_some, column]

/-! ## Texts, bytes and identifiers -/

theorem undone_text (s : String) : Undone t (.text s) := by
  rw [undone_iff t rfl]
  simp only [kind, Kind.decode?, Text.ofUtf8?_utf8, Option.map_some, column]

theorem undone_bytes (b : List UInt8) : Undone t (.bytes b) := by
  rw [undone_iff t rfl]
  rfl

theorem undone_uuid (u : Uuid) : Undone t (.uuid u) := by
  rw [undone_iff t rfl]
  simp only [kind, Kind.decode?, Uuid.ofBytes?_bytes, Option.map_some, column]

/-! ## Dates and times -/

theorem undone_date (d : Date) : Undone t (.date d) := by
  obtain ⟨hlow, hhigh⟩ := d.days_bounds
  have hread : Number.signed? 4 (signedBigEndian 4 (d.days - firstDay)) = some (d.days - firstDay) :=
    Number.signed?_signedBigEndian (by rw [firstDay]; omega) (by rw [firstDay]; omega)
  have hday : firstDay + (d.days - firstDay) = d.days := by omega
  rw [undone_iff t rfl]
  simp only [kind, Kind.decode?, hread, Option.bind_some, hday, Date.ofDays?_days, Option.map_some, column]

/-- A point in time in whole microseconds. -/
theorem microsOf_eq {d : DateTime} (hwhole : 1000 ∣ d.time.nanos) :
    microsOf d = (d.timestamp - firstDay * 86400) * 1000000 + (d.time.nanos / 1000 : Nat) := by
  obtain ⟨k, hk⟩ := hwhole
  have hnanos : d.nanosSinceEpoch - firstDay * 86400 * second =
      1000 * ((d.timestamp - firstDay * 86400) * 1000000 + k) := by
    simp only [DateTime.nanosSinceEpoch, hk, second]
    omega
  rw [microsOf, hnanos, Int.mul_tdiv_cancel_left _ (by decide), hk, Nat.mul_div_cancel_left _ (by decide)]

theorem ofMicros?_microsOf {d : DateTime} (hwhole : 1000 ∣ d.time.nanos)
    (hwithin : d.time.nanos < second) : ofMicros? (microsOf d) = some d := by
  have hmicros : d.time.nanos / 1000 < 1000000 := by
    rw [second] at hwithin
    omega
  have hseconds : Int.fdiv (microsOf d) 1000000 = d.timestamp - firstDay * 86400 := by
    rw [Int.fdiv_eq_ediv_of_nonneg _ (by decide), microsOf_eq hwhole]
    omega
  have hrest : (Int.fmod (microsOf d) 1000000).toNat = d.time.nanos / 1000 := by
    rw [Int.fmod_eq_emod_of_nonneg _ (by decide), microsOf_eq hwhole]
    omega
  have hsame : firstDay * 86400 + (d.timestamp - firstDay * 86400) = d.timestamp := by omega
  rw [ofMicros?, hseconds, hrest, hsame, Nat.mul_div_cancel' hwhole, DateTime.ofTimestamp?_timestamp]

theorem signed?_microsOf {d : DateTime} (hwhole : 1000 ∣ d.time.nanos) :
    Number.signed? 8 (signedBigEndian 8 (microsOf d)) = some (microsOf d) := by
  obtain ⟨hlow, hhigh⟩ := d.date.days_bounds
  obtain ⟨hclock, hnanos, -⟩ := d.time.valid
  rw [second] at hnanos
  have hbounds : -9000000000000000000 < microsOf d ∧ microsOf d < 9000000000000000000 := by
    rw [microsOf_eq hwhole, firstDay, DateTime.timestamp]
    omega
  exact Number.signed?_signedBigEndian (by omega) (by omega)

/-- A kind that is laid out as a point in time. -/
theorem decode?_microsOf {k : Kind} {value : DateTime → Value}
    (hk : ∀ bytes, k.decode? t bytes =
      (Number.signed? 8 bytes).bind fun n => (ofMicros? n).map value)
    {d : DateTime} (hwhole : 1000 ∣ d.time.nanos) (hwithin : d.time.nanos < second) :
    k.decode? t (signedBigEndian 8 (microsOf d)) = some (value d) := by
  rw [hk, signed?_microsOf hwhole, Option.bind_some, ofMicros?_microsOf hwhole hwithin, Option.map_some]

theorem undone_timestamp {d : DateTime} (hwhole : 1000 ∣ d.time.nanos)
    (hwithin : d.time.nanos < second) : Undone t (.timestamp d) := by
  rw [undone_iff t rfl]
  exact decode?_microsOf t (fun _ => rfl) hwhole hwithin

theorem undone_instant {d : DateTime} (hwhole : 1000 ∣ d.time.nanos)
    (hwithin : d.time.nanos < second) : Undone t (.instant d) := by
  rw [undone_iff t rfl]
  exact decode?_microsOf t (fun _ => rfl) hwhole hwithin

theorem timeOfMicros?_micros {d : Time} (hwhole : 1000 ∣ d.nanos) (hwithin : d.nanos < second) {n : Int}
    (hn : n = d.seconds * 1000000 + d.nanos / 1000) : timeOfMicros? n = some d := by
  obtain ⟨hclock, -, -⟩ := d.valid
  rw [second] at hwithin
  have hday : (Int.fmod n dayMicros).toNat = d.seconds * 1000000 + d.nanos / 1000 := by
    rw [dayMicros, Int.fmod_eq_emod_of_nonneg _ (by decide)]
    omega
  have hseconds : (d.seconds * 1000000 + d.nanos / 1000) / 1000000 = d.seconds := by omega
  have hrest : (d.seconds * 1000000 + d.nanos / 1000) % 1000000 = d.nanos / 1000 := by omega
  simp only [timeOfMicros?, hday, hseconds, hrest, Nat.mul_div_cancel' hwhole, Time.of?_self]

theorem undone_time {d : Time} (hwhole : 1000 ∣ d.nanos) (hwithin : d.nanos < second) :
    Undone t (.time d) := by
  obtain ⟨hclock, hnanos, -⟩ := d.valid
  -- a number with a name, lest it be computed with
  obtain ⟨n, hn⟩ : ∃ n : Int, n = ((d.seconds : Int) * (second : Nat) + (d.nanos : Nat)) / 1000 := ⟨_, rfl⟩
  have hmicros : n = d.seconds * 1000000 + d.nanos / 1000 := by
    rw [hn, second]
    omega
  rw [second] at hnanos
  have hread : Number.signed? 8 (signedBigEndian 8 n) = some n :=
    Number.signed?_signedBigEndian (by omega) (by omega)
  rw [undone_iff t rfl, ← hn]
  simp only [kind, Kind.decode?, hread, Option.bind_some, timeOfMicros?_micros hwhole hwithin hmicros,
    Option.map_some, column]

end Parameter

end Postgres

end Orm
