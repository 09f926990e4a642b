import Orm.Calendar.DateTime
import Orm.Proofs.Legible.Digits
import Orm.Uuid

/-
Dates, times, durations and identifiers are known from their texts.
-/

namespace Orm

open Text (Stops padded padded_append_inj padded_append_ne_cons stops_cons)

namespace Calendar

/-! ## Dates -/

theorem toList_twoDigits (n : Nat) : (twoDigits n).toList = padded 2 n := Text.toList_padLeft 2 n

/-- The sign that a year is written with. -/
def yearSign (year : Int) : List Char :=
  if year < 0 then ['-'] else if 9999 < year then ['+'] else []

theorem toList_yearText (year : Int) :
    (yearText year).toList = yearSign year ++ padded 4 year.natAbs := by
  simp only [yearText, yearSign]
  split
  · rw [String.toList_append, Text.toList_padLeft]
    rfl
  · split
    · rw [String.toList_append, Text.toList_padLeft]
      rfl
    · exact Text.toList_padLeft 4 _

theorem yearText_append_inj {y z : Int} {r s : List Char} (hr : Stops r) (hs : Stops s)
    (h : (yearText y).toList ++ r = (yearText z).toList ++ s) : y = z ∧ r = s := by
  rw [toList_yearText, toList_yearText, List.append_assoc, List.append_assoc] at h
  -- years of different signs begin with different characters
  have hsign : (y < 0 ↔ z < 0) ∧ (9999 < y ↔ 9999 < z) ∧
      padded 4 y.natAbs ++ r = padded 4 z.natAbs ++ s := by
    unfold yearSign at h
    have hne : ∀ {n : Nat} {c : Char} {r s : List Char}, c.isDigit = false →
        padded 4 n ++ r ≠ c :: s := fun hc => padded_append_ne_cons hc _ _
    split at h <;> split at h <;> (try split at h) <;> (try split at h)
    all_goals simp only [List.cons_append, List.nil_append, List.cons.injEq, true_and] at h
    all_goals first
      | exact ⟨by omega, by omega, h⟩
      | exact absurd h (hne (by decide))
      | exact absurd h.symm (hne (by decide))
      | exact absurd h.1 (by decide)
  obtain ⟨hneg, hlarge, h⟩ := hsign
  obtain ⟨habs, hrest⟩ := padded_append_inj hr hs h
  exact ⟨by omega, hrest⟩

theorem Date.toList_text (d : Date) : d.text.toList =
    (yearText d.year).toList ++ '-' :: (padded 2 d.month ++ '-' :: padded 2 d.day) := by
  simp only [text, String.toList_append, toList_twoDigits, List.append_assoc]
  rfl

theorem Date.text_append_inj {d e : Date} {r s : List Char} (hr : Stops r) (hs : Stops s)
    (h : d.text.toList ++ r = e.text.toList ++ s) : d = e ∧ r = s := by
  rw [toList_text, toList_text] at h
  simp only [List.append_assoc, List.cons_append] at h
  obtain ⟨hyear, h⟩ := yearText_append_inj (by simp) (by simp) h
  obtain ⟨hmonth, h⟩ := padded_append_inj (by simp) (by simp) (List.cons.inj h).2
  obtain ⟨hday, h⟩ := padded_append_inj hr hs (List.cons.inj h).2
  refine ⟨?_, h⟩
  cases d
  cases e
  simp_all

/-! ## Times -/

/-- No decimal place follows. -/
def StopsPlaces (r : List Char) : Prop := Stops r ∧ ∀ c ∈ r.head?, c ≠ '.'

/-- The decimal places that are written. -/
def places (nanos : Nat) : List Char :=
  if nanos = 0 then []
  else if nanos % 1000000 = 0 then padded 3 (nanos / 1000000)
  else if nanos % 1000 = 0 then padded 6 (nanos / 1000)
  else padded 9 nanos

theorem toList_fractionText (nanos : Nat) : (fractionText nanos).toList =
    if nanos = 0 then [] else '.' :: places nanos := by
  simp only [fractionText, places]
  split
  · rfl
  · split
    · rw [String.toList_append, Text.toList_padLeft]
      rfl
    · split
      · rw [String.toList_append, Text.toList_padLeft]
        rfl
      · rw [String.toList_append, Text.toList_padLeft]
        rfl

theorem isDigit_of_mem_places {nanos : Nat} {c : Char} (h : c ∈ places nanos) :
    c.isDigit = true := by
  simp only [places] at h
  split at h
  · cases h
  · split at h
    · exact Text.isDigit_of_mem_padded h
    · split at h <;> exact Text.isDigit_of_mem_padded h

/-- The number that decimal places stand for. -/
def placesValue (ds : List Char) : Nat := Nat.ofDigitChars 10 ds 0 * 10 ^ (9 - ds.length)

theorem placesValue_places {nanos : Nat} (h : nanos < second) : placesValue (places nanos) = nanos := by
  have hvalue : ∀ {w n : Nat}, 0 < w → n < 10 ^ w → placesValue (padded w n) = n * 10 ^ (9 - w) :=
    fun hw hn => by rw [placesValue, Text.padded_value, Text.length_padded hw hn]
  rw [second] at h
  unfold places
  split
  · simp [placesValue, Nat.ofDigitChars, *]
  · split
    · rw [hvalue (by decide) (by omega)]
      omega
    · split
      · rw [hvalue (by decide) (by omega)]
        omega
      · rw [hvalue (by decide) (by omega)]
        omega

theorem fractionText_append_inj {m n : Nat} {r s : List Char} (hm : m < second) (hn : n < second)
    (hr : StopsPlaces r) (hs : StopsPlaces s)
    (h : (fractionText m).toList ++ r = (fractionText n).toList ++ s) : m = n ∧ r = s := by
  rw [toList_fractionText, toList_fractionText] at h
  by_cases hm0 : m = 0 <;> by_cases hn0 : n = 0
  · rw [if_pos hm0, if_pos hn0] at h
    exact ⟨hm0.trans hn0.symm, h⟩
  · rw [if_pos hm0, if_neg hn0] at h
    have hr : r = '.' :: (places n ++ s) := h
    subst hr
    exact absurd rfl (hr.2 '.' rfl)
  · rw [if_neg hm0, if_pos hn0] at h
    have hs : s = '.' :: (places m ++ r) := h.symm
    subst hs
    exact absurd rfl (hs.2 '.' rfl)
  · rw [if_neg hm0, if_neg hn0] at h
    obtain ⟨hplaces, hrest⟩ := Text.digits_append_inj (fun _ => isDigit_of_mem_places)
      (fun _ => isDigit_of_mem_places) hr.1 hs.1 (List.cons.inj h).2
    refine ⟨?_, hrest⟩
    rw [← placesValue_places hm, hplaces, placesValue_places hn]

theorem Time.toList_text (t : Time) : t.text.toList =
    padded 2 (t.seconds / 3600) ++ ':' :: (padded 2 (t.seconds / 60 % 60) ++
      ':' :: (padded 2 (t.seconds % 60 + t.nanos / second) ++
        (fractionText (t.nanos % second)).toList)) := by
  simp only [text, String.toList_append, toList_twoDigits, List.append_assoc]
  rfl

theorem stops_fractionText {n : Nat} {r : List Char} (hr : Stops r) :
    Stops ((fractionText n).toList ++ r) := by
  rw [toList_fractionText]
  split
  · exact hr
  · simp

theorem Time.text_append_inj {t u : Time} {r s : List Char} (hr : StopsPlaces r)
    (hs : StopsPlaces s) (h : t.text.toList ++ r = u.text.toList ++ s) : t = u ∧ r = s := by
  rw [toList_text, toList_text] at h
  simp only [List.append_assoc, List.cons_append] at h
  obtain ⟨hhour, h⟩ := padded_append_inj (by simp) (by simp) h
  obtain ⟨hminute, h⟩ := padded_append_inj (by simp) (by simp) (List.cons.inj h).2
  obtain ⟨hsecond, h⟩ := padded_append_inj (stops_fractionText hr.1) (stops_fractionText hs.1)
    (List.cons.inj h).2
  have hlt : 0 < second := by decide
  obtain ⟨hnanos, h⟩ := fractionText_append_inj (Nat.mod_lt _ hlt) (Nat.mod_lt _ hlt) hr hs h
  refine ⟨?_, h⟩
  obtain ⟨ht, hn, hleap⟩ := t.valid
  obtain ⟨hu, hn', hleap'⟩ := u.valid
  simp only [second] at hsecond hnanos hn hn' hleap hleap'
  have hsame : t.seconds = u.seconds ∧ t.nanos = u.nanos := by
    -- a second 60 is the leap second of second 59
    have hleaps : 1000000000 ≤ t.nanos ↔ 1000000000 ≤ u.nanos := by omega
    omega
  cases t
  cases u
  simp_all

theorem stopsPlaces_nil : StopsPlaces [] := ⟨nofun, nofun⟩

theorem Date.text_injective {d e : Date} (h : d.text = e.text) : d = e :=
  (text_append_inj Text.stops_nil Text.stops_nil (by rw [h])).1

theorem Time.text_injective {t u : Time} (h : t.text = u.text) : t = u :=
  (text_append_inj stopsPlaces_nil stopsPlaces_nil (by rw [h])).1

/-- A date and a time are known from the text of both, whatever character stands between them. -/
theorem DateTime.text_append_inj {c : Char} (hc : c.isDigit = false) {t u : DateTime}
    {r : List Char} (hr : StopsPlaces r)
    (h : (t.text (String.singleton c)).toList ++ r = (u.text (String.singleton c)).toList ++ r) :
    t = u := by
  simp only [text, String.toList_append, String.toList_singleton, List.append_assoc,
    List.singleton_append] at h
  obtain ⟨hdate, h⟩ := Date.text_append_inj (stops_cons.2 hc) (stops_cons.2 hc) h
  obtain ⟨htime, -⟩ := Time.text_append_inj hr hr (List.cons.inj h).2
  exact congr (congrArg DateTime.mk hdate) htime

/-! ## Durations -/

/-- Nine decimal places without the zeros at their end. -/
def trimmed (n : Nat) : List Char := ((padded 9 n).reverse.dropWhile (· == '0')).reverse

theorem isDigit_of_mem_trimmed {n : Nat} {c : Char} (h : c ∈ trimmed n) : c.isDigit = true := by
  rw [trimmed, List.mem_reverse] at h
  exact Text.isDigit_of_mem_padded (List.mem_reverse.1 ((List.dropWhile_sublist _).subset h))

theorem placesValue_trimmed {n : Nat} (h : n < second) : placesValue (trimmed n) = n := by
  have hlength : (padded 9 n).length = 9 := Text.length_padded (by decide) h
  obtain ⟨k, hk⟩ : ∃ k, padded 9 n = trimmed n ++ List.replicate k '0' := by
    refine ⟨((padded 9 n).reverse.takeWhile (· == '0')).length, ?_⟩
    have hzeros : (padded 9 n).reverse.takeWhile (· == '0') = List.replicate
        ((padded 9 n).reverse.takeWhile (· == '0')).length '0' :=
      List.eq_replicate_iff.2 ⟨rfl, fun c hc =>
        beq_iff_eq.1 (List.all_eq_true.1 List.all_takeWhile c hc)⟩
    have hsplit := List.takeWhile_append_dropWhile (p := (· == '0')) (l := (padded 9 n).reverse)
    rw [hzeros] at hsplit
    have := congrArg List.reverse hsplit
    rw [List.reverse_append, List.reverse_replicate, List.reverse_reverse] at this
    exact this.symm
  rw [hk, List.length_append, List.length_replicate] at hlength
  have hvalue := Text.padded_value 9 n
  rw [hk, Nat.ofDigitChars_append, Nat.ofDigitChars_replicate_zero] at hvalue
  rw [placesValue, show 9 - (trimmed n).length = k by omega, Nat.mul_comm]
  exact hvalue

/-- The decimal places of a duration and its end. -/
def secondsEnd (n : Nat) : List Char :=
  (if n % second = 0 then [] else '.' :: trimmed (n % second)) ++ ['S']

theorem Duration.toList_text (d : Duration) : d.text.toList =
    if d.nanos = 0 then ['P', '0', 'D'] else
      (if d.nanos < 0 then ['-'] else []) ++ 'P' :: 'T' ::
        (padded 0 (d.nanos.natAbs / second) ++ secondsEnd d.nanos.natAbs) := by
  simp only [text, Int.natAbs_eq_zero]
  split
  · rfl
  · simp only [String.toList_append, Text.toList_toString, Text.toList_padLeft, List.append_assoc,
      apply_ite String.toList, String.toList_ofList, secondsEnd, trimmed]
    rfl

theorem stops_secondsEnd (n : Nat) : Stops (secondsEnd n) := by
  unfold secondsEnd
  split <;> simp

theorem secondsEnd_inj {m n : Nat} (h : secondsEnd m = secondsEnd n) : m % second = n % second := by
  have hlt : ∀ k, k % second < second := fun k => Nat.mod_lt k (by decide)
  unfold secondsEnd at h
  by_cases hm : m % second = 0 <;> by_cases hn : n % second = 0
  · rw [hm, hn]
  · rw [if_pos hm, if_neg hn] at h
    exact absurd (List.cons.inj h).1 (by decide)
  · rw [if_neg hm, if_pos hn] at h
    exact absurd (List.cons.inj h).1 (by decide)
  · rw [if_neg hm, if_neg hn] at h
    obtain ⟨htrimmed, -⟩ := Text.digits_append_inj (fun _ => isDigit_of_mem_trimmed)
      (fun _ => isDigit_of_mem_trimmed) (by simp) (by simp) (List.cons.inj h).2
    rw [← placesValue_trimmed (hlt m), htrimmed, placesValue_trimmed (hlt n)]

theorem seconds_inj {m n : Nat} (h : padded 0 (m / second) ++ secondsEnd m =
    padded 0 (n / second) ++ secondsEnd n) : m = n := by
  obtain ⟨hdiv, hend⟩ := padded_append_inj (stops_secondsEnd m) (stops_secondsEnd n) h
  rw [← Nat.div_add_mod m second, ← Nat.div_add_mod n second, hdiv, secondsEnd_inj hend]

theorem Duration.text_injective {d e : Duration} (h : d.text = e.text) : d = e := by
  have h := congrArg String.toList h
  have hnanos : d.nanos = e.nanos := by
    rw [toList_text, toList_text] at h
    have hempty : ∀ n : Int, ∀ cs, ['P', '0', 'D'] ≠
        (if n < 0 then ['-'] else []) ++ 'P' :: 'T' :: cs := by
      intro n cs heq
      split at heq <;> simp at heq
    by_cases hd : d.nanos = 0 <;> by_cases he : e.nanos = 0
    · rw [hd, he]
    · rw [if_pos hd, if_neg he] at h
      exact absurd h (hempty _ _)
    · rw [if_neg hd, if_pos he] at h
      exact absurd h.symm (hempty _ _)
    · rw [if_neg hd, if_neg he] at h
      have hsign : (d.nanos < 0 ↔ e.nanos < 0) ∧ d.nanos.natAbs = e.nanos.natAbs := by
        split at h <;> split at h
        all_goals simp only [List.cons_append, List.nil_append, List.cons.injEq, true_and] at h
        · exact ⟨by omega, seconds_inj h⟩
        · exact absurd h.1 (by decide)
        · exact absurd h.1 (by decide)
        · exact ⟨by omega, seconds_inj h⟩
      omega
  cases d
  cases e
  simp_all

end Calendar

/-! ## Identifiers -/

namespace Uuid

theorem length_digits (u : Uuid) : u.digits.length = 32 := Text.length_hexFixed 32 _

/-- The five groups are all digits. -/
theorem groups_append (u : Uuid) : u.digits.take 8 ++ ((u.digits.drop 8).take 4 ++
    ((u.digits.drop 12).take 4 ++ ((u.digits.drop 16).take 4 ++ u.digits.drop 20))) = u.digits := by
  have hnext : ∀ m n, (u.digits.drop m).take n ++ u.digits.drop (m + n) = u.digits.drop m :=
    fun m n => by rw [← List.drop_drop, List.take_append_drop]
  rw [hnext 16 4, hnext 12 4, hnext 8 4, List.take_append_drop]

theorem toList_text (u : Uuid) : u.text.toList =
    u.digits.take 8 ++ '-' :: ((u.digits.drop 8).take 4 ++ '-' :: ((u.digits.drop 12).take 4 ++
      '-' :: ((u.digits.drop 16).take 4 ++ '-' :: u.digits.drop 20))) := by
  simp only [text, String.toList_ofList, List.append_assoc, List.cons_append, List.nil_append]

/-- The digits of an identifier are what is left of its text without the hyphens. -/
theorem filter_text (u : Uuid) : u.text.toList.filter (· != '-') = u.digits := by
  have hdigit : ∀ c ∈ u.digits, (c != '-') = true := by
    intro c hc
    obtain ⟨d, hd, rfl⟩ := Text.mem_hexFixed hc
    have hall : ∀ i < 16, (Text.hexDigit i != '-') = true := by decide
    exact hall d hd
  have hself : ∀ l, List.Sublist l u.digits → l.filter (· != '-') = l := fun l hl =>
    List.filter_eq_self.2 fun c hc => hdigit c (hl.subset hc)
  have hgroup : ∀ m n, ((u.digits.drop m).take n).Sublist u.digits := fun m n =>
    (List.take_sublist _ _).trans (List.drop_sublist _ _)
  have hhyphen : ∀ l : List Char, ('-' :: l).filter (· != '-') = l.filter (· != '-') :=
    fun l => List.filter_cons_of_neg (by decide)
  simp only [toList_text, List.filter_append, hhyphen, hself _ (hgroup _ _),
    hself _ (List.take_sublist _ _), hself _ (List.drop_sublist _ _), groups_append]

theorem text_injective {u v : Uuid} (h : u.text = v.text) : u = v := by
  have hdigits : u.digits = v.digits := by rw [← filter_text u, h, filter_text v]
  have hvalue := Text.hexFixed_injective (by simpa using u.value.isLt) (by simpa using v.value.isLt) hdigits
  cases u
  cases v
  simpa [BitVec.toNat_inj] using hvalue

end Uuid

end Orm
