import Orm.Calendar.Reading
import Orm.Proofs.Calendar.Days
import Orm.Proofs.Legible.Calendar

/-
Dates and times are read from their own texts. Every reader is specified in front of any rest that cannot
go on what was read, so the readers of the parts make up those of the whole: `date?_text`, `time?_text`,
`columnDateTime?_text` and `columnDateTime?_utc`.
-/

namespace Orm.Calendar

open Number (isDigit digitValue? digitsValue)
open Text (Stops padded stops_cons)

/-! ## Digits -/

theorem digitValue?_eq {c : Char} (h : c.isDigit = true) :
    digitValue? c = some (c.toNat - '0'.toNat) := by
  obtain ⟨hlow, hhigh⟩ := Bool.and_eq_true_iff.1 h
  exact if_pos ⟨of_decide_eq_true hlow, of_decide_eq_true hhigh⟩

theorem isDigit_eq (c : Char) : isDigit c = c.isDigit := by
  cases h : c.isDigit with
  | true => rw [isDigit, digitValue?_eq h, Option.isSome_some]
  | false =>
    have hnone : ¬('0' ≤ c ∧ c ≤ '9') := fun ⟨hlow, hhigh⟩ => Bool.false_ne_true
      (h.symm.trans (Bool.and_eq_true_iff.2 ⟨decide_eq_true hlow, decide_eq_true hhigh⟩))
    rw [isDigit, digitValue?, if_neg hnone, Option.isSome_none]

theorem digitsValue_eq {ds : List Char} (h : ∀ c ∈ ds, c.isDigit = true) :
    digitsValue ds = Nat.ofDigitChars 10 ds 0 := by
  have hfold : ∀ n, ds.foldl (fun n c => 10 * n + (digitValue? c).getD 0) n =
      Nat.ofDigitChars 10 ds n := by
    induction ds with
    | nil => exact fun _ => rfl
    | cons c ds ih =>
      obtain ⟨hc, hds⟩ := List.forall_mem_cons.1 h
      intro n
      rw [List.foldl_cons, ih hds, digitValue?_eq hc]
      rfl
  exact hfold 0

/-- The digits in front of a text are taken to their end. -/
theorem takeWhile_digits {ds r : List Char} (hds : ∀ c ∈ ds, c.isDigit = true) (hr : Stops r) :
    (ds ++ r).takeWhile isDigit = ds := by
  have hrest : r.takeWhile isDigit = [] := by
    cases r with
    | nil => rfl
    | cons c r => rw [List.takeWhile_cons_of_neg (by simpa [isDigit_eq] using hr)]
  rw [List.takeWhile_append_of_pos fun c hc => (isDigit_eq c).trans (hds c hc), hrest,
    List.append_nil]

theorem number?_digits {most : Nat} {ds r : List Char} (hds : ∀ c ∈ ds, c.isDigit = true)
    (hne : ds ≠ []) (hlen : ds.length ≤ most) (hr : Stops (r.take (most - ds.length))) :
    number? most (ds ++ r) = some (Nat.ofDigitChars 10 ds 0, r) := by
  have htake : ((ds ++ r).take most).takeWhile isDigit = ds := by
    rw [List.take_append, List.take_of_length_le hlen, takeWhile_digits hds hr]
  simp only [number?, htake, List.isEmpty_iff, if_neg hne, digitsValue_eq hds, List.drop_left]

/-- A number is read at its width, whatever stands behind it. -/
theorem number?_padded {width n : Nat} (hw : 0 < width) (h : n < 10 ^ width) (r : List Char) :
    number? width (padded width n ++ r) = some (n, r) := by
  have hlen := Text.length_padded hw h
  rw [number?_digits (fun _ => Text.isDigit_of_mem_padded) (Text.padded_ne_nil width n)
    (Nat.le_of_eq hlen) (by simp [hlen]), Text.padded_value]

theorem fixed?_padded {width n : Nat} (hw : 0 < width) (h : n < 10 ^ width) (r : List Char) :
    fixed? width (padded width n ++ r) = some (n, r) := by
  have hdigits : ∀ c ∈ padded width n, c.isDigit = true := fun _ => Text.isDigit_of_mem_padded
  have hlen := Text.length_padded hw h
  have htake : ((padded width n ++ r).take width).takeWhile isDigit = padded width n := by
    rw [List.take_left' hlen]
    simpa using takeWhile_digits hdigits Text.stops_nil
  simp only [fixed?, htake, hlen, if_true, digitsValue_eq hdigits, Text.padded_value,
    List.drop_left' hlen]

theorem places_ne_nil {n : Nat} (hn : n ≠ 0) : places n ≠ [] := by
  unfold places
  rw [if_neg hn]
  split
  · exact Text.padded_ne_nil 3 _
  · split <;> exact Text.padded_ne_nil _ _

theorem length_places_le {n : Nat} (h : n < second) : (places n).length ≤ 9 := by
  have hlen : ∀ {w n : Nat}, 0 < w → n < 10 ^ w → w ≤ 9 → (padded w n).length ≤ 9 :=
    fun hw hn hle => Nat.le_trans (Nat.le_of_eq (Text.length_padded hw hn)) hle
  rw [second] at h
  unfold places
  split
  · exact Nat.zero_le _
  · split
    · exact hlen (by decide) (by omega) (by decide)
    · split
      · exact hlen (by decide) (by omega) (by decide)
      · exact hlen (by decide) (by omega) (by decide)

/-- Decimal places are read to their end. -/
theorem places?_places {n : Nat} (hn : n ≠ 0) (h : n < second) {r : List Char} (hr : Stops r) :
    places? (places n ++ r) = some (n, r) := by
  have hdigits : ∀ c ∈ places n, c.isDigit = true := fun _ => isDigit_of_mem_places
  have htake := takeWhile_digits hdigits hr
  simp only [places?, htake, List.isEmpty_iff, if_neg (places_ne_nil hn),
    List.take_of_length_le (length_places_le h), digitsValue_eq hdigits, List.drop_left]
  exact congrArg (fun k => some (k, r)) (placesValue_places h)

/-! ## Blanks -/

theorem isBlank_of_isDigit {c : Char} (h : c.isDigit = true) : Text.isBlank c = false := by
  obtain ⟨hlow, hhigh⟩ := Bool.and_eq_true_iff.1 h
  have hlow : 48 ≤ c.toNat := UInt32.le_iff_toNat_le.1 (of_decide_eq_true hlow)
  have hhigh : c.toNat ≤ 57 := UInt32.le_iff_toNat_le.1 (of_decide_eq_true hhigh)
  have hall : ∀ n < 58, 48 ≤ n → Text.isBlank (Char.ofNat n) = false := by decide
  have hblank := hall c.toNat (Nat.lt_succ_of_le hhigh) hlow
  rwa [Char.ofNat_toNat] at hblank

theorem skipBlanks_cons {c : Char} (h : Text.isBlank c = false) (r : List Char) :
    skipBlanks (c :: r) = c :: r := by
  rw [skipBlanks, List.dropWhile_cons_of_neg (by simp [h])]

theorem skipBlanks_padded (width n : Nat) (r : List Char) :
    skipBlanks (padded width n ++ r) = padded width n ++ r := by
  obtain ⟨c, cs, hcs⟩ := List.exists_cons_of_ne_nil (Text.padded_ne_nil width n)
  have hc : c.isDigit = true := Text.isDigit_of_mem_padded (hcs ▸ List.mem_cons_self)
  rw [hcs, List.cons_append, skipBlanks_cons (isBlank_of_isDigit hc)]

theorem number?_skipBlanks {n : Nat} (h : n < 100) (r : List Char) :
    number? 2 (skipBlanks (padded 2 n ++ r)) = some (n, r) := by
  rw [skipBlanks_padded, number?_padded (by decide) h]

/-! ## Patterns -/

theorem readItems?_append (xs ys : List Item) (f : Fields) (cs : List Char) :
    readItems? (xs ++ ys) f cs = (readItems? xs f cs).bind fun p => readItems? ys p.1 p.2 := by
  induction xs generalizing f cs with
  | nil => rfl
  | cons x xs ih =>
    simp only [List.cons_append, readItems?]
    cases x.read? f cs with
    | none => rfl
    | some p => exact ih p.1 p.2

@[simp] theorem read?_literal (c : Char) (f : Fields) (r : List Char) :
    Item.read? f (c :: r) (.literal c) = some (f, r) :=
  if_pos rfl

theorem signedYear?_digit {c : Char} (hc : c.isDigit = true) (cs : List Char) :
    signedYear? (c :: cs) = (number? 4 (c :: cs)).map fun (n, r) => ((n : Int), r) := by
  unfold signedYear?
  split
  · rename_i heq
    cases (List.cons.inj heq).1
    cases hc
  · rename_i heq
    cases (List.cons.inj heq).1
    cases hc
  · rfl

theorem signedYear?_yearText (y : Int) {r : List Char} (hr : Stops r) :
    signedYear? ((yearText y).toList ++ r) = some (y, r) := by
  have hdigits : ∀ c ∈ padded 4 y.natAbs, c.isDigit = true := fun _ => Text.isDigit_of_mem_padded
  -- behind a sign the digits are read to their end
  have hsigned : number? (padded 4 y.natAbs ++ r).length (padded 4 y.natAbs ++ r) =
      some (y.natAbs, r) := by
    rw [number?_digits hdigits (Text.padded_ne_nil 4 _) (by simp) (by simpa using hr),
      Text.padded_value]
  rw [toList_yearText, yearSign]
  split
  · simp only [List.cons_append, List.nil_append, signedYear?, hsigned, Option.map_some]
    congr 2
    omega
  · split
    · simp only [List.cons_append, List.nil_append, signedYear?, hsigned, Option.map_some]
      congr 2
      omega
    · have hfour := number?_padded (by decide : 0 < 4) (by omega : y.natAbs < 10 ^ 4) r
      obtain ⟨c, cs, hcs⟩ := List.exists_cons_of_ne_nil (Text.padded_ne_nil 4 y.natAbs)
      have hc : c.isDigit = true := hdigits c (hcs ▸ List.mem_cons_self)
      rw [hcs] at hfour
      rw [hcs, List.nil_append, List.cons_append, signedYear?_digit hc, ← List.cons_append, hfour]
      simp only [Option.map_some]
      congr 2
      omega

theorem skipBlanks_yearText (y : Int) (r : List Char) :
    skipBlanks ((yearText y).toList ++ r) = (yearText y).toList ++ r := by
  rw [toList_yearText, yearSign]
  split
  · exact skipBlanks_cons (by decide) _
  · split
    · exact skipBlanks_cons (by decide) _
    · rw [List.nil_append, skipBlanks_padded]

theorem Date.month_lt (d : Date) : d.month < 100 := by
  have := d.valid
  omega

theorem Date.day_lt (d : Date) : d.day < 100 := by
  obtain ⟨-, -, -, -, -, hday⟩ := d.valid
  have hlongest : daysInMonth d.year d.month ≤ 31 := by
    unfold daysInMonth
    split
    · split <;> decide
    · split <;> decide
  omega

/-- What is read of a date. -/
def Date.shown (d : Date) : Fields := { year := d.year, month := d.month, day := d.day }

theorem readItems?_date (d : Date) (r : List Char) :
    readItems? dateItems {} (d.text.toList ++ r) = some (d.shown, r) := by
  have hyear : ∀ r, signedYear? ((yearText d.year).toList ++ '-' :: r) = some (d.year, '-' :: r) :=
    fun _ => signedYear?_yearText d.year (stops_cons.2 (by decide))
  simp only [Date.toList_text, List.append_assoc, List.cons_append, dateItems, readItems?, Item.read?,
    skipBlanks_yearText, hyear, number?_skipBlanks d.month_lt, number?_skipBlanks d.day_lt,
    Option.map_some, Option.bind_some, if_true]
  rfl

/-! ## Clocks -/

theorem Time.ofClock?_self (t : Time) : ofClock? (t.seconds / 3600) (t.seconds / 60 % 60)
    (t.seconds % 60 + t.nanos / second) (t.nanos % second) = some t := by
  obtain ⟨hday, hnanos, hleap⟩ := t.valid
  have hhour : t.seconds / 3600 < 24 := by omega
  have hminute : t.seconds / 60 % 60 < 60 := by omega
  have hrest : t.nanos % second < second := Nat.mod_lt _ (by decide)
  have hclock : t.seconds / 3600 * 3600 + t.seconds / 60 % 60 * 60 + t.seconds % 60 = t.seconds := by
    omega
  by_cases h : second ≤ t.nanos
  · -- second 60 is the leap second of second 59
    have hlast := hleap h
    have hone : t.nanos / second = 1 := by
      simp only [second] at *
      omega
    have hrun : second + t.nanos % second = t.nanos := by
      rw [Nat.mod_eq_sub_mod h, Nat.mod_eq_of_lt (by omega), Nat.add_sub_cancel' h]
    rw [hlast] at hclock
    rw [ofClock?, hlast, hone, if_pos ⟨hhour, hminute, by decide, hrest⟩, if_pos rfl, hclock, hrun,
      of?_self]
  · have hzero : t.nanos / second = 0 := Nat.div_eq_of_lt (Nat.lt_of_not_le h)
    have hrun : t.nanos % second = t.nanos := Nat.mod_eq_of_lt (Nat.lt_of_not_le h)
    have hsecond : t.seconds % 60 < 60 := Nat.mod_lt _ (by decide)
    rw [ofClock?, hzero, Nat.add_zero, if_pos ⟨hhour, hminute, by omega, hrest⟩, if_neg (by omega),
      hclock, hrun, of?_self]

theorem read?_fraction {n : Nat} (h : n < second) {f : Fields} (hf : f.nanos = 0) {r : List Char}
    (hr : StopsPlaces r) :
    Item.read? f ((fractionText n).toList ++ r) .fraction = some ({ f with nanos := n }, r) := by
  rw [toList_fractionText]
  split
  · rename_i hn
    have hsame : { f with nanos := n } = f := by
      rw [hn, ← hf]
    rw [hsame, List.nil_append, Item.read?]
    rintro rest rfl
    exact absurd rfl (hr.2 '.' rfl)
  · rename_i hn
    rw [List.cons_append, Item.read?, places?_places hn h hr.1]
    rfl

/-- The hours, minutes and seconds of a clock take two digits each. -/
theorem Time.clock_lt (t : Time) : t.seconds / 3600 < 100 ∧ t.seconds / 60 % 60 < 100 ∧
    t.seconds % 60 + t.nanos / second < 100 := by
  obtain ⟨hday, hnanos, -⟩ := t.valid
  simp only [second] at *
  omega

/-- What a clock shows. -/
def Time.shown (t : Time) (f : Fields) : Fields :=
  { f with hour := t.seconds / 3600, minute := t.seconds / 60 % 60,
           second := t.seconds % 60 + t.nanos / second, nanos := t.nanos % second }

theorem Time.time?_shown (t : Time) (f : Fields) : (t.shown f).time? = some t := ofClock?_self t

theorem DateTime.dateTime?_shown (t : DateTime) : (t.time.shown t.date.shown).dateTime? = some t := by
  have hdate : (t.time.shown t.date.shown).date? = some t.date := t.date.of?_self
  simp only [Fields.dateTime?, hdate, Time.time?_shown, Option.bind_eq_bind, Option.bind_some]
  rfl

theorem readItems?_time (t : Time) {f : Fields} (hf : f.nanos = 0) {r : List Char}
    (hr : StopsPlaces r) : readItems? timeItems f (t.text.toList ++ r) = some (t.shown f, r) := by
  obtain ⟨hhour, hminute, hsecond⟩ := t.clock_lt
  have hnanos : t.nanos % second < second := Nat.mod_lt _ (by decide)
  have hclock : readItems? (minuteItems ++ [.literal ':', .second]) f (t.text.toList ++ r) =
      some ({ t.shown f with nanos := f.nanos }, (fractionText (t.nanos % second)).toList ++ r) := by
    simp only [Time.toList_text, List.append_assoc, List.cons_append, List.nil_append, minuteItems,
      readItems?, Item.read?, number?_skipBlanks hhour, number?_skipBlanks hminute,
      number?_skipBlanks hsecond, Option.map_some, Option.bind_some, if_true]
    rfl
  have hfraction := read?_fraction hnanos (f := { t.shown f with nanos := f.nanos }) hf hr
  have hparts : timeItems = (minuteItems ++ [.literal ':', .second]) ++ [.fraction] := rfl
  rw [hparts, readItems?_append, hclock, Option.bind_some, readItems?, hfraction]
  rfl

/-! ## Texts of columns -/

theorem date?_text (d : Date) : date? d.text.toList = some d := by
  have hread := readItems?_date d []
  rw [List.append_nil] at hread
  rw [date?, readAll?, hread]
  exact d.of?_self

theorem time?_text (t : Time) : time? t.text.toList = some t := by
  have hread := readItems?_time t (f := {}) rfl stopsPlaces_nil
  rw [List.append_nil] at hread
  rw [time?, readAll?, hread, Option.bind_some, t.time?_shown, Option.some_or]

/-- A year that is written with four digits and no sign. -/
theorem toList_yearText_plain {y : Int} (h : 0 ≤ y ∧ y ≤ 9999) :
    (yearText y).toList = padded 4 y.toNat := by
  have habs : y.natAbs = y.toNat := by omega
  rw [toList_yearText, yearSign, if_neg (by omega), if_neg (by omega), List.nil_append, habs]

theorem colon?_cons (r : List Char) : colon? (':' :: r) = some r := rfl

/-- A full date and time is read up to its offset. -/
theorem rfc3339?_text {t : DateTime} (hyear : 0 ≤ t.date.year ∧ t.date.year ≤ 9999) {c : Char}
    (hc : isDateEnd c = true) {r : List Char} (hr : StopsPlaces r) :
    rfc3339? (t.date.text.toList ++ c :: (t.time.text.toList ++ r)) =
      (offset? colon? r).bind fun (offset, cs) =>
        if !cs.isEmpty || 86340 < offset.natAbs then none else t.toUtc? offset := by
  obtain ⟨hhour, hminute, hsecond⟩ := t.time.clock_lt
  have hnanos : t.time.nanos % second < second := Nat.mod_lt _ (by decide)
  have hy : t.date.year.toNat < 10 ^ 4 := by omega
  have hpos : 0 < 2 := by decide
  have hfraction : Item.read?
      { year := (t.date.year.toNat : Int), month := t.date.month, day := t.date.day,
        hour := t.time.seconds / 3600, minute := t.time.seconds / 60 % 60,
        second := t.time.seconds % 60 + t.time.nanos / second }
      ((fractionText (t.time.nanos % second)).toList ++ r) .fraction =
        some (t.time.shown t.date.shown, r) := by
    rw [Int.toNat_of_nonneg hyear.1]
    exact read?_fraction hnanos rfl hr
  simp only [rfc3339?, Date.toList_text, Time.toList_text, toList_yearText_plain hyear,
    List.append_assoc, List.cons_append, fixed?_padded (by decide : 0 < 4) hy,
    fixed?_padded hpos t.date.month_lt, fixed?_padded hpos t.date.day_lt, fixed?_padded hpos hhour,
    fixed?_padded hpos hminute, fixed?_padded hpos hsecond, read?_literal, colon?_cons, hc,
    hfraction, t.dateTime?_shown, Option.bind_some, Option.bind_eq_bind, Bool.not_true,
    Bool.false_eq_true, if_false]

theorem DateTime.toList_spaced (t : DateTime) :
    (t.text " ").toList = t.date.text.toList ++ ' ' :: t.time.text.toList := by
  have hseparator : " ".toList = [' '] := rfl
  simp only [text, String.toList_append, List.append_assoc, hseparator, List.singleton_append]

theorem DateTime.toList_utc (t : DateTime) : (t.text "T" ++ "+00:00").toList =
    t.date.text.toList ++ 'T' :: (t.time.text.toList ++ ['+', '0', '0', ':', '0', '0']) := by
  have hseparator : "T".toList = ['T'] := rfl
  have hoffset : "+00:00".toList = ['+', '0', '0', ':', '0', '0'] := rfl
  simp only [text, String.toList_append, List.append_assoc, hseparator, hoffset, List.cons_append,
    List.nil_append]

/-- A date and time without an offset is the one that columns hold. -/
theorem columnDateTime?_text {t : DateTime} (hyear : 0 ≤ t.date.year ∧ t.date.year ≤ 9999) :
    columnDateTime? (t.text " ").toList = some t := by
  have hoffset : rfc3339? (t.text " ").toList = none := by
    have hread := rfc3339?_text hyear (by decide : isDateEnd ' ' = true) stopsPlaces_nil
    rw [List.append_nil] at hread
    rw [t.toList_spaced, hread]
    rfl
  have hfirst : readAll? (dateItems ++ [.blanks] ++ timeItems) (t.text " ").toList =
      some (t.time.shown t.date.shown) := by
    have htime := readItems?_time t.time (f := t.date.shown) rfl stopsPlaces_nil
    rw [List.append_nil] at htime
    have hblank : readItems? [.blanks] t.date.shown (' ' :: t.time.text.toList) =
        some (t.date.shown, t.time.text.toList) := by
      have hspace : skipBlanks (' ' :: t.time.text.toList) = t.time.text.toList := by
        rw [skipBlanks, List.dropWhile_cons_of_pos (by decide), ← skipBlanks, Time.toList_text,
          skipBlanks_padded]
      rw [readItems?, Item.read?, hspace]
      rfl
    rw [readAll?, t.toList_spaced, readItems?_append, readItems?_append, readItems?_date, Option.bind_some,
      hblank, Option.bind_some, htime]
  simp only [columnDateTime?, hoffset, columnItems, List.findSome?_cons, hfirst, Option.bind_some,
    t.dateTime?_shown, Option.none_or, Option.some_or]

/-- A point in time is read from the text with its offset. -/
theorem columnDateTime?_utc {t : DateTime} (hyear : 0 ≤ t.date.year ∧ t.date.year ≤ 9999) :
    columnDateTime? (t.text "T" ++ "+00:00").toList = some t := by
  have hread := rfc3339?_text hyear (by decide : isDateEnd 'T' = true)
    (r := ['+', '0', '0', ':', '0', '0']) ⟨stops_cons.2 rfl, by simp⟩
  have hoffset : offset? colon? ['+', '0', '0', ':', '0', '0'] = some (0, []) := rfl
  have hwhole : rfc3339? (t.text "T" ++ "+00:00").toList = some t := by
    simp only [t.toList_utc, hread, hoffset, Option.bind_some, t.toUtc?_zero]
    rfl
  simp only [columnDateTime?, hwhole, Option.some_or]

end Orm.Calendar
