import Orm.Postgres.Binding
import Orm.Proofs.Number.Numeral
import Orm.Proofs.Postgres.Layout
import Orm.Schema.FieldType

/-
Binding and columns agree.

A value of a field is bound as a type of the server, and a column of that type is read again. The two go by
tables of their own: a number is bound to NUMERIC as a decimal and read as a text, a time without a zone is
bound to TIMESTAMPTZ as a point in time. `Carries` says that the declared type of the field closes the
gap, and `bound_agrees` that it does for every value and type that belong together, but for numbers outside
the range of the type.
-/

namespace Orm

/-! ## Fields -/

theorem FieldType.normalize_eq {f : FieldType} {type : ScalarType} (hf : f.scalar? = some type)
    {v : Value} (hv : v.isNull = false) : f.normalize v = type.read v := by
  rw [normalize, hf]
  exact if_neg (Bool.eq_false_iff.1 hv)

namespace Postgres

open Calendar (second)
open Number (IntRange)

/-! ## Columns -/

theorem SqlType.kind?_of_isText {t : SqlType} (h : t.isText = true) : t.kind? = none := by
  cases t <;> first | rfl | cases h

theorem accepts_iff {k : Kind} {t : SqlType} :
    k.accepts t = true ↔ t.kind? = some k ∨ k = .text ∧ t.isText = true := by
  have hno : ∀ t : SqlType, t.kind? ≠ some .text := by
    intro t
    cases t <;> exact nofun
  cases k <;> simp [Kind.accepts, hno]

theorem encode_eq_none {t : SqlType} {p : Parameter} (h : p.encode t = none) : p.column = .null := by
  cases p with
  | absent => rfl
  | _ => cases h

/-- A column has the value that was bound as its type, if decoding undoes the encoding. -/
theorem columnValue_encode {t : SqlType} {p : Parameter} (haccepts : p.kind.accepts t = true)
    (hundone : p.Undone t) (i : Nat) (name : String) :
    columnValue i ⟨name, t⟩ (p.encode t) = (.ok p.column, []) := by
  cases hbytes : p.encode t with
  | none =>
    rw [encode_eq_none hbytes]
    rcases accepts_iff.1 haccepts with hkind | ⟨-, htext⟩
    · simp only [columnValue, hkind]
    · simp only [columnValue, SqlType.kind?_of_isText htext, htext, if_true]
  | some bytes =>
    have hread := hundone bytes hbytes
    rcases accepts_iff.1 haccepts with hkind | ⟨hkind, htext⟩
    · simp only [columnValue, hkind, hread]
    · rw [hkind] at hread
      simp only [columnValue, SqlType.kind?_of_isText htext, htext, if_true, hread]

/-! ## Values and types that belong together -/

/-- The types that NULL is bound to. -/
def nullable : List SqlType :=
  [.bool, .int2, .int4, .int8, .numeric, .text, .varchar, .bytea, .uuid, .date, .time, .timestamp, .timestamptz]

/--
A value that a field has, and a type to send it as: NULL for every field, and the variant that the declared
type of the field has. Fields that relate to a model have none of their own. Times are in whole microseconds.
-/
inductive Sendable : FieldType → Value → SqlType → Prop
  | null (f : FieldType) {t : SqlType} (ht : t ∈ nullable) : Sendable f .null t
  | bool (b : Bool) : Sendable .boolean (.bool b) .bool
  | int {f : FieldType} (hf : f.scalar? = some .int64) (n : Int64) {t : SqlType}
    (ht : t ∈ [.int2, .int4, .int8, .numeric, .text, .varchar]) : Sendable f (.int n) t
  | string {f : FieldType} (hf : f.scalar? = some .string) (s : String) {t : SqlType}
    (ht : t ∈ [.text, .varchar]) : Sendable f (.string s) t
  | bytes (b : List UInt8) : Sendable .binary (.bytes b) .bytea
  | uuid (u : Uuid) {t : SqlType} (ht : t ∈ [.uuid, .text, .varchar]) : Sendable .uuid (.uuid u) t
  | date (d : Calendar.Date) : Sendable .date (.date d) .date
  | time {d : Calendar.Time} (hwhole : 1000 ∣ d.nanos) : Sendable .time (.time d) .time
  | dateTime {d : Calendar.DateTime} (hwhole : 1000 ∣ d.time.nanos) {t : SqlType}
    (ht : t ∈ [.timestamp, .timestamptz]) : Sendable .dateTime (.dateTime d) t
  | instant {d : Calendar.DateTime} (hwhole : 1000 ∣ d.time.nanos) {t : SqlType}
    (ht : t ∈ [.timestamp, .timestamptz]) : Sendable .dateTimeTz (.instant d) t

/-- A number outside the range of the type. -/
def OutOfRange (v : Value) (t : SqlType) : Prop :=
  ∃ n : Int64, v = .int n ∧
    (t = .int2 ∧ ¬(-2 ^ 15 ≤ n.toInt ∧ n.toInt < 2 ^ 15) ∨
      t = .int4 ∧ ¬(-2 ^ 31 ≤ n.toInt ∧ n.toInt < 2 ^ 31))

/-- A value that is not a time in a leap second. -/
def OffLeap : Value → Prop
  | .time d => d.nanos < second
  | .dateTime d | .instant d => d.time.nanos < second
  | _ => True

/-- A parameter that is bound for a value, and is read as the value in the column of its type. -/
structure Carries (f : FieldType) (v : Value) (t : SqlType) (p : Parameter) : Prop where
  bound : bind v t = .ok p
  accepted : p.kind.accepts t = true
  normalized : f.normalize p.column = .ok v
  undone : OffLeap v → p.Undone t

/-! ## Whole numbers -/

theorem bind_outOfRange {v : Value} {t : SqlType} (h : OutOfRange v t) :
    bind v t = .error (doesNotFit v t) := by
  obtain ⟨n, rfl, ⟨rfl, hrange⟩ | ⟨rfl, hrange⟩⟩ := h
  · exact if_neg fun hfits => hrange ((IntRange.signed_contains_iff 16).1 hfits)
  · exact if_neg fun hfits => hrange ((IntRange.signed_contains_iff 32).1 hfits)

/-- A number that fits is none other as an integer of the type. -/
theorem carries_int {f : FieldType} (hf : f.scalar? = some .int64) {n : Int64} {t : SqlType}
    (ht : t ∈ [SqlType.int2, .int4, .int8, .numeric, .text, .varchar]) (hfits : ¬OutOfRange (.int n) t) :
    ∃ p, Carries f (.int n) t p := by
  have hint : ∀ m : Int64, m = n → f.normalize (.int m) = .ok (.int n) := by
    rintro m rfl
    exact FieldType.normalize_eq hf rfl
  have htext : f.normalize (.string (toString n.toInt)) = .ok (.int n) := by
    rw [FieldType.normalize_eq hf rfl, ScalarType.read, Value.toInt_text]
    rfl
  simp only [List.mem_cons, List.not_mem_nil, or_false] at ht
  rcases ht with rfl | rfl | rfl | rfl | rfl | rfl
  · have hrange : -2 ^ 15 ≤ n.toInt ∧ n.toInt < 2 ^ 15 :=
      Decidable.byContradiction fun hno => hfits ⟨n, rfl, .inl ⟨rfl, hno⟩⟩
    have hsame : Int64.ofInt n.toInt16.toInt = n := by
      rw [Int64.toInt_toInt16, Int.bmod_eq_of_le (by omega) (by omega), Int64.ofInt_toInt]
    exact ⟨.int16 n.toInt16, if_pos ((IntRange.signed_contains_iff 16).2 hrange), rfl, hint _ hsame,
      fun _ => Parameter.undone_int16 _ _⟩
  · have hrange : -2 ^ 31 ≤ n.toInt ∧ n.toInt < 2 ^ 31 :=
      Decidable.byContradiction fun hno => hfits ⟨n, rfl, .inr ⟨rfl, hno⟩⟩
    have hsame : Int64.ofInt n.toInt32.toInt = n := by
      rw [Int64.toInt_toInt32, Int.bmod_eq_of_le (by omega) (by omega), Int64.ofInt_toInt]
    exact ⟨.int32 n.toInt32, if_pos ((IntRange.signed_contains_iff 32).2 hrange), rfl, hint _ hsame,
      fun _ => Parameter.undone_int32 _ _⟩
  · exact ⟨.int64 n, rfl, rfl, hint n rfl, fun _ => Parameter.undone_int64 _ _⟩
  · refine ⟨.decimal (.ofInt64 n), rfl, rfl, ?_, fun _ => Parameter.undone_decimal _ _⟩
    rw [Parameter.column, Number.Fixed.text_ofInt64, htext]
  · exact ⟨.text (toString n.toInt), rfl, rfl, htext, fun _ => Parameter.undone_text _ _⟩
  · exact ⟨.text (toString n.toInt), rfl, rfl, htext, fun _ => Parameter.undone_text _ _⟩

/-! ## All values -/

theorem carries_null (f : FieldType) {t : SqlType} (ht : t ∈ nullable) :
    ∃ p, Carries f .null t p := by
  refine ⟨.absent (t.kind?.getD .text), rfl, ?_, f.normalize_null, fun _ => Parameter.undone_absent _ _⟩
  simp only [nullable, List.mem_cons, List.not_mem_nil, or_false] at ht
  rcases ht with rfl | rfl | rfl | rfl | rfl | rfl | rfl | rfl | rfl | rfl | rfl | rfl | rfl <;> rfl

theorem carries_uuid (u : Uuid) {t : SqlType} (ht : t ∈ [SqlType.uuid, .text, .varchar]) :
    ∃ p, Carries .uuid (.uuid u) t p := by
  have htext : FieldType.uuid.normalize (.string u.text) = .ok (.uuid u) := by
    rw [FieldType.normalize_eq rfl rfl, ScalarType.read, Value.toUuid_text]
    rfl
  simp only [List.mem_cons, List.not_mem_nil, or_false] at ht
  rcases ht with rfl | rfl | rfl
  · exact ⟨.uuid u, rfl, rfl, rfl, fun _ => Parameter.undone_uuid _ _⟩
  · exact ⟨.text u.text, rfl, rfl, htext, fun _ => Parameter.undone_text _ _⟩
  · exact ⟨.text u.text, rfl, rfl, htext, fun _ => Parameter.undone_text _ _⟩

/-- Whichever of the two types a point in time is sent as, the field tells which of the two it is. -/
theorem carries_dateTime {d : Calendar.DateTime} (hwhole : 1000 ∣ d.time.nanos) {t : SqlType}
    (ht : t ∈ [SqlType.timestamp, .timestamptz]) :
    (∃ p, Carries .dateTime (.dateTime d) t p) ∧ ∃ p, Carries .dateTimeTz (.instant d) t p := by
  simp only [List.mem_cons, List.not_mem_nil, or_false] at ht
  rcases ht with rfl | rfl
  · exact ⟨⟨.timestamp d, rfl, rfl, rfl, Parameter.undone_timestamp _ hwhole⟩,
      ⟨.timestamp d, rfl, rfl, rfl, Parameter.undone_timestamp _ hwhole⟩⟩
  · exact ⟨⟨.instant d, rfl, rfl, rfl, Parameter.undone_instant _ hwhole⟩,
      ⟨.instant d, rfl, rfl, rfl, Parameter.undone_instant _ hwhole⟩⟩

theorem Sendable.carries {f : FieldType} {v : Value} {t : SqlType} (h : Sendable f v t)
    (hfits : ¬OutOfRange v t) : ∃ p, Carries f v t p := by
  cases h with
  | null f ht => exact carries_null f ht
  | bool b => exact ⟨.bool b, rfl, rfl, rfl, fun _ => Parameter.undone_bool _ _⟩
  | int hf n ht => exact carries_int hf ht hfits
  | string hf s ht =>
    have hnormal : f.normalize (.string s) = .ok (.string s) := FieldType.normalize_eq hf rfl
    simp only [List.mem_cons, List.not_mem_nil, or_false] at ht
    rcases ht with rfl | rfl
    · exact ⟨.text s, rfl, rfl, hnormal, fun _ => Parameter.undone_text _ _⟩
    · exact ⟨.text s, rfl, rfl, hnormal, fun _ => Parameter.undone_text _ _⟩
  | bytes b => exact ⟨.bytes b, rfl, rfl, rfl, fun _ => Parameter.undone_bytes _ _⟩
  | uuid u ht => exact carries_uuid u ht
  | date d => exact ⟨.date d, rfl, rfl, rfl, fun _ => Parameter.undone_date _ _⟩
  | time hwhole => exact ⟨.time _, rfl, rfl, rfl, Parameter.undone_time _ hwhole⟩
  | dateTime hwhole ht => exact (carries_dateTime hwhole ht).1
  | instant hwhole ht => exact (carries_dateTime hwhole ht).2

/--
A number outside the range of the type is refused. Any other value is bound as a parameter that the type takes;
if decoding undoes the encoding of this parameter, the field reads the value again in the column; and decoding
does undo it, but for a time in a leap second.
-/
theorem bound_agrees {f : FieldType} {v : Value} {t : SqlType} (h : Sendable f v t) :
    (OutOfRange v t ∧ bind v t = .error (.typeMismatch
        (v.text ++ " does not fit a " ++ t.label ++ " parameter"))) ∨
      ¬OutOfRange v t ∧ ∃ p, bind v t = .ok p ∧ p.kind.accepts t = true ∧
        (p.Undone t → ∀ (i : Nat) (name : String), ∃ w,
          columnValue i ⟨name, t⟩ (p.encode t) = (.ok w, []) ∧ f.normalize w = .ok v) ∧
        (OffLeap v → p.Undone t) := by
  by_cases hout : OutOfRange v t
  · exact .inl ⟨hout, bind_outOfRange hout⟩
  · obtain ⟨p, hp⟩ := h.carries hout
    exact .inr ⟨hout, p, hp.bound, hp.accepted, fun hundone i name =>
      ⟨p.column, columnValue_encode hp.accepted hundone i name, hp.normalized⟩, hp.undone⟩

/-- Half a second past noon on a leap day. -/
def pastNoon : Calendar.DateTime :=
  ⟨⟨2024, 2, 29, by decide⟩, ⟨43200, 500000000, by decide⟩⟩

theorem pastNoon_agrees : Sendable .dateTime (.dateTime pastNoon) .timestamptz ∧
    bind (.dateTime pastNoon) .timestamptz = .ok (.instant pastNoon) ∧
    ∃ w, columnValue 0 ⟨"at", .timestamptz⟩ ((Parameter.instant pastNoon).encode .timestamptz) =
      (.ok w, []) ∧ FieldType.dateTime.normalize w = .ok (.dateTime pastNoon) := by
  have hsendable : Sendable .dateTime (.dateTime pastNoon) .timestamptz := .dateTime (by decide) (by decide)
  have hwithin : OffLeap (.dateTime pastNoon) := by
    change pastNoon.time.nanos < second
    decide
  refine ⟨hsendable, rfl, ?_⟩
  rcases bound_agrees hsendable with ⟨⟨_, hint, -⟩, -⟩ | ⟨-, p, hbound, -, hread, hundone⟩
  · cases hint
  · cases hbound
    exact hread (hundone hwithin) 0 "at"

end Postgres

end Orm
