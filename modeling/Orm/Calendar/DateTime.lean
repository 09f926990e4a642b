import Orm.Calendar.Date

/-
Times of day, points in time without a zone or in UTC, and durations.

A leap second belongs to the last second of its minute: its nanoseconds run on from one thousand
million.
-/

namespace Orm.Calendar

/-- Nanoseconds of a second. -/
def second : Nat := 1000000000

structure Time where
  seconds : Nat
  nanos : Nat
  valid : seconds < 86400 ∧ nanos < 2 * second ∧ (second ≤ nanos → seconds % 60 = 59)
  deriving DecidableEq, Repr

namespace Time

def of? (seconds nanos : Nat) : Option Time :=
  if h : seconds < 86400 ∧ nanos < 2 * second ∧ (second ≤ nanos → seconds % 60 = 59) then
    some ⟨seconds, nanos, h⟩
  else none

def midnight : Time := ⟨0, 0, by decide⟩

/-- The time on a clock; second 60 is a leap second. -/
def ofClock? (hour minute sec nanos : Nat) : Option Time :=
  if hour < 24 ∧ minute < 60 ∧ sec ≤ 60 ∧ nanos < second then
    if sec = 60 then of? (hour * 3600 + minute * 60 + 59) (second + nanos)
    else of? (hour * 3600 + minute * 60 + sec) nanos
  else none

end Time

/-- No, three, six or nine decimal places, the fewest that lose nothing. -/
def fractionText (nanos : Nat) : String :=
  if nanos = 0 then ""
  else if nanos % 1000000 = 0 then "." ++ Text.padLeft 3 '0' (toString (nanos / 1000000))
  else if nanos % 1000 = 0 then "." ++ Text.padLeft 6 '0' (toString (nanos / 1000))
  else "." ++ Text.padLeft 9 '0' (toString nanos)

def Time.text (t : Time) : String :=
  let leap := t.nanos / second
  twoDigits (t.seconds / 3600) ++ ":" ++ twoDigits (t.seconds / 60 % 60) ++ ":" ++
    twoDigits (t.seconds % 60 + leap) ++ fractionText (t.nanos % second)

structure DateTime where
  date : Date
  time : Time
  deriving DecidableEq, Repr

namespace DateTime

def epoch : DateTime := ⟨Date.epoch, Time.midnight⟩

def text (separator : String) (t : DateTime) : String :=
  t.date.text ++ separator ++ t.time.text

/-- Whole seconds since the epoch. -/
def timestamp (t : DateTime) : Int :=
  t.date.days * 86400 + t.time.seconds

def ofTimestamp? (seconds : Int) (nanos : Nat) : Option DateTime := do
  let date ← Date.ofDays? (Int.fdiv seconds 86400)
  let time ← Time.of? (Int.fmod seconds 86400).toNat nanos
  return ⟨date, time⟩

/-- The point in UTC that clocks `offset` seconds ahead of it show as `t`. -/
def toUtc? (t : DateTime) (offset : Int) : Option DateTime :=
  ofTimestamp? (t.timestamp - offset) t.time.nanos

/-- Nanoseconds since the epoch; a leap second runs on. -/
def nanosSinceEpoch (t : DateTime) : Int :=
  t.timestamp * second + t.time.nanos

end DateTime

/-- The greatest number of milliseconds of a duration. -/
def maxMillis : Nat := 9223372036854775807

/-- A signed duration in nanoseconds. -/
structure Duration where
  nanos : Int
  valid : nanos.natAbs ≤ maxMillis * 1000000
  deriving DecidableEq, Repr

namespace Duration

def of? (nanos : Int) : Option Duration :=
  if h : nanos.natAbs ≤ maxMillis * 1000000 then some ⟨nanos, h⟩ else none

def zero : Duration := ⟨0, by decide⟩

theorem micros_valid (n : Int64) : (n.toInt * 1000).natAbs ≤ maxMillis * 1000000 := by
  have h1 := n.le_toInt
  have h2 := n.toInt_lt
  simp only [maxMillis]
  omega

/-- Every 64-bit number of microseconds is a duration. -/
def ofMicros (n : Int64) : Duration :=
  ⟨n.toInt * 1000, micros_valid n⟩

/-- Whole seconds, rounded toward the past, and the nanoseconds after them. -/
def parts (d : Duration) : Int × Nat :=
  (Int.fdiv d.nanos second, (Int.fmod d.nanos second).toNat)

/-- Whole microseconds, fractions dropped toward zero. -/
def micros (d : Duration) : Int :=
  Int.tdiv d.nanos 1000

/-- A number of seconds with as many decimal places as it needs. -/
def text (d : Duration) : String :=
  let sign := if d.nanos < 0 then "-" else ""
  let total := d.nanos.natAbs
  if total = 0 then "P0D" else
  let fraction := total % second
  let places := (Text.padLeft 9 '0' (toString fraction)).toList.reverse.dropWhile (· == '0')
  sign ++ "PT" ++ toString (total / second) ++
    (if fraction = 0 then "" else "." ++ String.ofList places.reverse) ++ "S"

end Duration

end Orm.Calendar
