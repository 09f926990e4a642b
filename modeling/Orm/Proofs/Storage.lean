import Orm.Proofs.Calendar.Reading
import Orm.Schema.FieldType
import Orm.Sqlite

/-
What is bound for a value of a field is read back as that value.

Cells have fewer kinds than values: truths, numbers and durations become integers, dates, times and
identifiers become texts. The declared type of the field tells which of them a cell came from, and its
texts are read as they were written (`Uuid.ofText?_text`, `Calendar.columnDateTime?_text` and so on).
-/

namespace Orm

/-! ## Texts in bytes and without blanks -/

namespace Text

theorem toList_loop (b : ByteArray) (i : Nat) (r : List UInt8) :
    ByteArray.toList.loop b i r = r.reverse ++ b.data.toList.drop i := by
  fun_induction ByteArray.toList.loop b i r with
  | case1 i r hlt ih =>
    have hlt : i < b.data.toList.length := hlt
    have hget : b.get! i = b.data.toList[i] :=
      (getElem!_pos b.data i hlt).trans (Array.getElem_toList _).symm
    rw [ih, List.reverse_cons, List.append_assoc, List.singleton_append, hget,
      List.getElem_cons_drop]
  | case2 i r hge =>
    have hend : b.data.toList.length ≤ i := Nat.le_of_not_lt hge
    rw [List.drop_eq_nil_of_le hend, List.append_nil]

theorem utf8_eq (s : String) : utf8 s = s.toUTF8.data.toList := by
  rw [utf8, ByteArray.toList, toList_loop, List.reverse_nil, List.nil_append, List.drop_zero]

theorem ofUtf8?_utf8 (s : String) : ofUtf8? (utf8 s) = some s := by
  have hbytes : ByteArray.mk (utf8 s).toArray = s.toByteArray := by
    rw [utf8_eq, Array.toArray_toList, String.toUTF8_eq_toByteArray]
  rw [ofUtf8?, hbytes, String.fromUTF8?, dif_pos s.isValidUTF8]
  rfl

theorem trimList_eq_self {cs : List Char} (hfirst : ∀ c ∈ cs.head?, isBlank c = false)
    (hlast : ∀ c ∈ cs.getLast?, isBlank c = false) : trimList cs = cs := by
  have hdrop : ∀ {cs : List Char}, (∀ c ∈ cs.head?, isBlank c = false) →
      cs.dropWhile isBlank = cs := by
    intro cs h
    cases cs with
    | nil => rfl
    | cons c cs => exact List.dropWhile_cons_of_neg (by simpa using h)
  rw [trimList, hdrop hfirst, hdrop (by rwa [List.head?_reverse]), List.reverse_reverse]

/-- No blank is among the characters. -/
def Solid (cs : List Char) : Prop := ∀ c ∈ cs, isBlank c = false

@[simp] theorem solid_nil : Solid [] := nofun

@[simp] theorem solid_cons {c : Char} {cs : List Char} :
    Solid (c :: cs) ↔ isBlank c = false ∧ Solid cs :=
  List.forall_mem_cons

@[simp] theorem solid_append {a b : List Char} : Solid (a ++ b) ↔ Solid a ∧ Solid b :=
  List.forall_mem_append

theorem solid_of_digits {cs : List Char} (h : ∀ c ∈ cs, c.isDigit = true) : Solid cs :=
  fun c hc => Calendar.isBlank_of_isDigit (h c hc)

@[simp] theorem solid_padded (width n : Nat) : Solid (padded width n) :=
  solid_of_digits fun _ => isDigit_of_mem_padded

/-- Blanks that stand between two texts are kept. -/
theorem trimList_between {a b : List Char} (ha : Solid a) (hb : Solid b) (hane : a ≠ [])
    (hbne : b ≠ []) (m : List Char) : trimList (a ++ (m ++ b)) = a ++ (m ++ b) := by
  apply trimList_eq_self
  · intro c hc
    rw [List.head?_append, List.head?_eq_some_head hane, Option.some_or] at hc
    exact ha c (Option.mem_some_iff.1 hc ▸ List.head_mem hane)
  · intro c hc
    rw [← List.append_assoc, List.getLast?_append, List.getLast?_eq_some_getLast hbne,
      Option.some_or] at hc
    exact hb c (Option.mem_some_iff.1 hc ▸ List.getLast_mem hbne)

theorem Solid.trim_eq {s : String} (h : Solid s.toList) : trim s = s := by
  rw [trim, trimList_eq_self (fun c hc => h c (List.mem_of_head? hc))
    (fun c hc => h c (List.mem_of_getLast? hc)), String.ofList_toList]

theorem hexValue?_hexDigit : ∀ d < 16, hexValue? (hexDigit d) = some d := by
  decide

theorem hexNat?_hexFixed {width n : Nat} (hw : 0 < width) (h : n < 16 ^ width) :
    hexNat? (hexFixed width n) = some n := by
  have hfold : ∀ {width n : Nat}, n < 16 ^ width → (hexFixed width n).foldlM
      (fun n c => (hexValue? c).map (16 * n + ·)) 0 = some n := by
    intro width
    induction width with
    | zero =>
      intro n h
      have hzero : n = 0 := by omega
      rw [hzero]
      rfl
    | succ width ih =>
      intro n h
      rw [Nat.pow_succ] at h
      have hhigh : n / 16 < 16 ^ width := by omega
      rw [hexFixed, List.foldlM_append, ih hhigh]
      simp [hexValue?_hexDigit (n % 16) (by omega)]
      omega
  unfold hexNat?
  split
  · rename_i hnil
    have hlen := length_hexFixed width n
    rw [hnil] at hlen
    exact absurd hlen.symm (Nat.ne_of_gt hw)
  · exact hfold h

end Text

/-! ## Identifiers -/

namespace Uuid

theorem ofDigits?_digits (u : Uuid) : ofDigits? u.digits = some u := by
  have hvalue : Text.hexNat? u.digits = some u.value.toNat :=
    Text.hexNat?_hexFixed (by decide) u.value.isLt
  rw [ofDigits?, if_pos u.length_digits, hvalue, Option.map_some, BitVec.ofNat_toNat,
    BitVec.setWidth_eq]

theorem hyphenated?_groups {a b c d e : List Char} (ha : a.length = 8) (hb : b.length = 4)
    (hc : c.length = 4) (hd : d.length = 4) (he : e.length = 12) :
    hyphenated? (a ++ '-' :: (b ++ '-' :: (c ++ '-' :: (d ++ '-' :: e)))) =
      ofDigits? (a ++ (b ++ (c ++ (d ++ e)))) := by
  rw [hyphenated?, if_pos]
  · congr 1
    simp [List.drop_append, List.drop_of_length_le, ha, hb, hc, hd]
  · simp [List.getElem?_append, ha, hb, hc, hd, he]

theorem ofText?_text (u : Uuid) : ofText? u.text = some u := by
  have hlen := u.length_digits
  have hgroups := hyphenated?_groups (a := u.digits.take 8) (b := (u.digits.drop 8).take 4)
    (c := (u.digits.drop 12).take 4) (d := (u.digits.drop 16).take 4) (e := u.digits.drop 20)
    (by simp [hlen]) (by simp [hlen]) (by simp [hlen]) (by simp [hlen]) (by simp [hlen])
  have htext : u.text.toList.length = 36 := by
    simp [toList_text, hlen]
  simp only [ofText?]
  rw [if_neg (by omega), if_pos htext, toList_text, hgroups, groups_append, ofDigits?_digits]

theorem solid_text (u : Uuid) : Text.Solid u.text.toList := by
  have hdigits : Text.Solid u.digits := by
    intro c hc
    obtain ⟨d, hd, rfl⟩ := Text.mem_hexFixed hc
    have hall : ∀ d < 16, Text.isBlank (Text.hexDigit d) = false := by decide
    exact hall d hd
  have hhyphen : Text.isBlank '-' = false := rfl
  rw [← u.groups_append] at hdigits
  simp only [Text.solid_append] at hdigits
  simpa only [toList_text, Text.solid_append, Text.solid_cons, hhyphen, true_and] using hdigits

end Uuid

/-! ## Dates and times -/

namespace Calendar

theorem Date.solid_text (d : Date) : Text.Solid d.text.toList := by
  have hhyphen : Text.isBlank '-' = false := rfl
  have hplus : Text.isBlank '+' = false := rfl
  have hsign : Text.Solid (yearSign d.year) := by
    unfold yearSign
    split
    · simp [hhyphen]
    · split <;> simp [hplus]
  simp [toList_text, toList_yearText, hhyphen, hsign]

theorem Time.solid_text (t : Time) : Text.Solid t.text.toList := by
  have hcolon : Text.isBlank ':' = false := rfl
  have hpoint : Text.isBlank '.' = false := rfl
  have hplaces : ∀ n, Text.Solid (places n) := fun _ =>
    Text.solid_of_digits fun _ => isDigit_of_mem_places
  have hfraction : Text.Solid (fractionText (t.nanos % second)).toList := by
    rw [toList_fractionText]
    split
    · simp
    · simp [hpoint, hplaces]
  simp [toList_text, hcolon, hfraction]

/-- The blank between a date and a time is at neither end. -/
theorem DateTime.trim_spaced (t : DateTime) : Text.trim (t.text " ") = t.text " " := by
  have htrim := Text.trimList_between t.date.solid_text t.time.solid_text
    (by simp [Date.toList_text]) (by simp [Time.toList_text]) [' ']
  rw [List.singleton_append, ← t.toList_spaced] at htrim
  rw [Text.trim, htrim, String.ofList_toList]

theorem DateTime.solid_utc (t : DateTime) : Text.Solid (t.text "T" ++ "+00:00").toList := by
  have hseparator : Text.isBlank 'T' = false := rfl
  have hplus : Text.isBlank '+' = false := rfl
  have hzero : Text.isBlank '0' = false := rfl
  have hcolon : Text.isBlank ':' = false := rfl
  simp [t.toList_utc, t.date.solid_text, t.time.solid_text, hseparator, hplus, hzero, hcolon]

end Calendar

/-! ## Values -/

namespace Value

open Calendar

theorem toUuid_text (u : Uuid) : (Value.string u.text).toUuid = .ok u := by
  simp only [toUuid, trimmed?, u.solid_text.trim_eq, Option.bind_some, u.ofText?_text, required]

theorem toDate_text (d : Date) : (Value.string d.text).toDate = .ok d := by
  simp only [toDate, trimmed?, d.solid_text.trim_eq, Option.bind_some, date?_text, Option.some_or,
    required]

theorem toTime_text (t : Time) : (Value.string t.text).toTime = .ok t := by
  simp only [toTime, trimmed?, t.solid_text.trim_eq, Option.bind_some, time?_text, required]

theorem toDateTime_text {t : DateTime} (hyear : 0 ≤ t.date.year ∧ t.date.year ≤ 9999) :
    (Value.string (t.text " ")).toDateTime = .ok t := by
  simp only [toDateTime, trimmed?, t.trim_spaced, Option.bind_some, columnDateTime?_text hyear, required]

theorem toInstant_text {t : DateTime} (hyear : 0 ≤ t.date.year ∧ t.date.year ≤ 9999) :
    (Value.string (t.text "T" ++ "+00:00")).toInstant = .ok t := by
  simp only [toInstant, toDateTime, trimmed?, t.solid_utc.trim_eq, Option.bind_some,
    columnDateTime?_utc hyear, required]

end Value

/-! ## Cells -/

namespace Sqlite

open Number (IntRange)

theorem Cell.value_ofText (s : String) : (Cell.ofText s).value = .string s := by
  rw [ofText, value, Text.ofUtf8?_utf8]

/-- A duration of whole microseconds loses nothing, unless these are too many. -/
theorem Cell.toDuration_ofDuration {d : Calendar.Duration} (hwhole : 1000 ∣ d.nanos)
    (hfits : (IntRange.signed 64).contains (d.nanos / 1000) = true) :
    (Cell.ofDuration d).value.toDuration = .ok d := by
  have hmicros : d.micros = d.nanos / 1000 := Int.tdiv_eq_ediv_of_dvd hwhole
  have hrange := Bool.and_eq_true_iff.1 hfits
  have hlow : -2 ^ 63 ≤ d.nanos / 1000 := of_decide_eq_true hrange.1
  have hhigh : d.nanos / 1000 ≤ 2 ^ 63 - 1 := of_decide_eq_true hrange.2
  have hcast : (Int64.ofInt (d.nanos / 1000)).toInt = d.nanos / 1000 :=
    Int64.toInt_ofInt_of_le hlow (by omega)
  have hsame : Calendar.Duration.ofMicros (Int64.ofInt (d.nanos / 1000)) = d := by
    have hnanos : (Int64.ofInt (d.nanos / 1000)).toInt * 1000 = d.nanos := by
      rw [hcast, Int.ediv_mul_cancel hwhole]
    cases d
    simp only [Calendar.Duration.ofMicros, hnanos]
  rw [ofDuration, hmicros, if_pos hfits, value, Value.toDuration, hsame]

/-- What an engine has to do for values to come back: integers, texts, bytes and NULL are kept. -/
def Faithful (engine : Cell → Cell) : Prop := ∀ c, (∀ x, c ≠ .real x) → engine c = c

theorem faithful_kept : Faithful Cell.kept := by
  intro c hc
  cases c with
  | real x => exact absurd rfl (hc x)
  | null | integer | text | blob => rfl

/--
The values of a field that are kept exactly: NULL in every field, and the values of the variant that the
declared type has, but for floats and documents. Years have four digits, and durations are whole numbers
of microseconds that fit in 64 bits.
-/
inductive Storable : FieldType → Value → Prop
  | null (t : FieldType) : Storable t .null
  | bool (b : Bool) : Storable .boolean (.bool b)
  | int {t : FieldType} (ht : t.scalar? = some .int64) (n : Int64) : Storable t (.int n)
  | string {t : FieldType} (ht : t.scalar? = some .string) (s : String) : Storable t (.string s)
  | bytes (b : List UInt8) : Storable .binary (.bytes b)
  | uuid (u : Uuid) : Storable .uuid (.uuid u)
  | time (t : Calendar.Time) : Storable .time (.time t)
  | date {d : Calendar.Date} (hyear : 1 ≤ d.year ∧ d.year ≤ 9999) : Storable .date (.date d)
  | dateTime {t : Calendar.DateTime} (hyear : 1 ≤ t.date.year ∧ t.date.year ≤ 9999) :
    Storable .dateTime (.dateTime t)
  | instant {t : Calendar.DateTime} (hyear : 1 ≤ t.date.year ∧ t.date.year ≤ 9999) :
    Storable .dateTimeTz (.instant t)
  | duration {d : Calendar.Duration} (hwhole : 1000 ∣ d.nanos)
    (hfits : (IntRange.signed 64).contains (d.nanos / 1000) = true) : Storable .duration (.duration d)

/-- The bound cell is never a float, so the engine keeps it. -/
theorem Storable.kept {engine : Cell → Cell} (hengine : Faithful engine) {t : FieldType} {v : Value}
    (h : Storable t v) : engine (Cell.ofValue v) = Cell.ofValue v := by
  apply hengine
  cases h <;> exact nofun

/-- A text is read as the type that the values of the field have. -/
theorem normalize_ofText {t : FieldType} {type : ScalarType} (ht : t.scalar? = some type)
    (s : String) : t.normalize (Cell.ofText s).value = type.read (.string s) := by
  rw [Cell.value_ofText, FieldType.normalize, ht]
  rfl

/-- The declared type reads its own values off their cells. -/
theorem Storable.normalize_cell {t : FieldType} {v : Value} (h : Storable t v) :
    t.normalize (Cell.ofValue v).value = .ok v := by
  cases h with
  | null t => cases t <;> rfl
  | bool b => cases b <;> rfl
  | int ht n =>
    rw [FieldType.normalize, ht]
    rfl
  | string ht s =>
    rw [Cell.ofValue, normalize_ofText ht]
    rfl
  | bytes b => rfl
  | uuid u =>
    rw [Cell.ofValue, normalize_ofText rfl, ScalarType.read, Value.toUuid_text]
    rfl
  | time t =>
    rw [Cell.ofValue, normalize_ofText rfl, ScalarType.read, Value.toTime_text]
    rfl
  | date hyear =>
    rw [Cell.ofValue, normalize_ofText rfl, ScalarType.read, Value.toDate_text]
    rfl
  | dateTime hyear =>
    rw [Cell.ofValue, normalize_ofText rfl, ScalarType.read, Value.toDateTime_text (by omega)]
    rfl
  | instant hyear =>
    rw [Cell.ofValue, normalize_ofText rfl, ScalarType.read, Value.toInstant_text (by omega)]
    rfl
  | duration hwhole hfits =>
    have hread := congrArg (Except.map Value.duration) (Cell.toDuration_ofDuration hwhole hfits)
    exact hread

/-- Whatever engine keeps its cells, a value of a field is read back as it was bound. -/
theorem normalize_stored {engine : Cell → Cell} (hengine : Faithful engine) {t : FieldType}
    {v : Value} (h : Storable t v) : t.normalize (engine (Cell.ofValue v)).value = .ok v := by
  rw [h.kept hengine]
  exact h.normalize_cell

/-- Half a second into the leap second at the end of 2016. -/
def leapInstant : Calendar.DateTime :=
  ⟨⟨2016, 12, 31, by decide⟩, ⟨86399, 1500000000, by decide⟩⟩

theorem leapInstant_stored : Faithful Cell.kept ∧ Storable .dateTimeTz (.instant leapInstant) ∧
    Cell.ofValue (.instant leapInstant) = .ofText "2016-12-31T23:59:60.500+00:00" ∧
    FieldType.dateTimeTz.normalize (Cell.kept (Cell.ofValue (.instant leapInstant))).value =
      .ok (.instant leapInstant) :=
  have h : Storable .dateTimeTz (.instant leapInstant) := .instant (by decide)
  ⟨faithful_kept, h, congrArg Cell.ofText (by decide), normalize_stored faithful_kept h⟩

end Sqlite

end Orm
