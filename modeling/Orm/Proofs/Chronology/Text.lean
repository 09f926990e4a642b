import Orm.Proofs.Chronology.Order
import Orm.Proofs.Storage

/-
The texts of dates and times, in the order of their characters. Their fields have a fixed width and go from
the longest unit of time to the shortest; decimal places may be left out, but only at the end, and what
stands behind them is less than the point and than every digit. So of two times the earlier has the lesser
text (`Date.text_lt`, `Time.text_lt`).

The bytes of texts are ordered as the texts themselves (`Text.utf8_lt_iff`): a greater character has the
greater bytes from the first byte on in which the two differ, whatever stands behind it.
-/

namespace Orm

namespace Text

/-! ## Bytes -/

theorem append_lt_append_iff {α : Type} [LT α] [Std.Irrefl (α := α) (· < ·)] (a : List α)
    {r s : List α} : a ++ r < a ++ s ↔ r < s := by
  induction a with
  | nil => rfl
  | cons x a ih => simp [ih]

theorem byte_lt_iff {m n : Nat} (hm : m < 256) (hn : n < 256) {as bs : List UInt8} :
    UInt8.ofNat m :: as < UInt8.ofNat n :: bs ↔ m < n ∨ m = n ∧ as < bs := by
  rw [List.cons_lt_cons_iff, UInt8.lt_iff_toNat_lt, ← UInt8.toNat_inj, UInt8.toNat_ofNat_of_lt' hm,
    UInt8.toNat_ofNat_of_lt' hn]

theorem utf8EncodeChar_lt {c d : Char} (h : c < d) (r s : List UInt8) :
    String.utf8EncodeChar c ++ r < String.utf8EncodeChar d ++ s := by
  have hlt : c.val.toNat < d.val.toNat := h
  have htop : d.val.toNat < 0x110000 := by
    rcases d.valid with hlow | hhigh
    · exact Nat.lt_trans hlow (by decide)
    · exact hhigh.2
  -- the digits of a character to the base 64
  have htwice : ∀ k, k / 4096 = k / 64 / 64 := by omega
  have hthrice : ∀ k, k / 262144 = k / 64 / 64 / 64 := by omega
  simp only [String.utf8EncodeChar, htwice, hthrice]
  generalize c.val.toNat = m at *
  generalize d.val.toNat = n at *
  -- the first byte grows with the number of bytes, which grows with the character
  by_cases hrest : r < s <;> repeat' split
  all_goals
    try simp (disch := omega) only [List.cons_append, List.nil_append, byte_lt_iff, hrest, and_true,
      and_false, or_false]
    omega

theorem utf8_eq_flatMap (s : String) : utf8 s = s.toList.flatMap String.utf8EncodeChar := by
  rw [utf8_eq, String.toUTF8_eq_toByteArray, ← String.utf8Encode_toList, List.utf8Encode,
    List.data_toByteArray]

theorem flatMap_lt_iff {cs ds : List Char} :
    cs.flatMap String.utf8EncodeChar < ds.flatMap String.utf8EncodeChar ↔ cs < ds := by
  induction cs generalizing ds with
  | nil =>
    cases ds with
    | nil => simp
    | cons d ds =>
      obtain ⟨b, bs, hbytes⟩ := List.exists_cons_of_ne_nil (@String.utf8EncodeChar_ne_nil d)
      simp [hbytes]
  | cons c cs ih =>
    cases ds with
    | nil => simp
    | cons d ds =>
      rw [List.flatMap_cons, List.flatMap_cons, List.cons_lt_cons_iff]
      rcases Std.lt_trichotomy c d with hlt | rfl | hgt
      · exact iff_of_true (utf8EncodeChar_lt hlt _ _) (.inl hlt)
      · rw [append_lt_append_iff, ih]
        simp
      · refine iff_of_false (List.lt_asymm (utf8EncodeChar_lt hgt _ _)) ?_
        rintro (hlt | ⟨rfl, -⟩)
        · exact absurd hgt (Char.lt_asymm hlt)
        · exact absurd hgt (Char.lt_irrefl _)

/-- Texts are ordered as their bytes are. -/
theorem utf8_lt_iff {s t : String} : utf8 s < utf8 t ↔ s.toList < t.toList := by
  rw [utf8_eq_flatMap, utf8_eq_flatMap, flatMap_lt_iff]

/-! ## Digits -/

/-- What follows is less than a point, and so than every digit. -/
def Low (r : List Char) : Prop := ∀ c ∈ r.head?, c < '.'

theorem low_nil : Low [] := nofun

theorem Low.lt_cons {r : List Char} (h : Low r) {c : Char} (hc : '.' ≤ c) (s : List Char) :
    r < c :: s := by
  cases r with
  | nil => exact List.nil_lt_cons c s
  | cons d r => exact List.cons_lt_cons_iff.2 (.inl (Std.lt_of_lt_of_le (h d rfl) hc))

/-- The value that a digit stands for. -/
theorem digit_bounds {c : Char} (h : c.isDigit = true) : 48 ≤ c.toNat ∧ c.toNat ≤ 57 := by
  obtain ⟨hlow, hhigh⟩ := Bool.and_eq_true_iff.1 h
  exact ⟨UInt32.le_iff_toNat_le.1 (of_decide_eq_true hlow),
    UInt32.le_iff_toNat_le.1 (of_decide_eq_true hhigh)⟩

theorem point_le_digit {c : Char} (h : c.isDigit = true) : '.' ≤ c :=
  Char.le_def.2 (UInt32.le_iff_toNat_le.2 (Nat.le_trans (by decide) (digit_bounds h).1))

/-- Digits behind a number change it by less than one unit of its last place. -/
theorem ofDigitChars_bounds {k : Nat} {a : List Char} (ha : ∀ c ∈ a, c.isDigit = true)
    (hk : a.length ≤ k) (i : Nat) :
    i * 10 ^ k ≤ Nat.ofDigitChars 10 a i * 10 ^ (k - a.length) ∧
      Nat.ofDigitChars 10 a i * 10 ^ (k - a.length) < (i + 1) * 10 ^ k := by
  induction a generalizing k i with
  | nil =>
    have hpos : 0 < 10 ^ k := Nat.pow_pos (by decide)
    simp only [Nat.ofDigitChars, List.foldl_nil, List.length_nil, Nat.sub_zero, Nat.le_refl,
      Nat.add_mul, Nat.one_mul, true_and]
    omega
  | cons c a ih =>
    obtain ⟨hc, ha⟩ := List.forall_mem_cons.1 ha
    obtain ⟨k, rfl⟩ : ∃ j, k = j + 1 := ⟨k - 1, by rw [List.length_cons] at hk; omega⟩
    obtain ⟨hlow, hhigh⟩ := digit_bounds hc
    obtain ⟨h1, h2⟩ := ih ha (Nat.le_of_succ_le_succ hk) (10 * i + (c.toNat - '0'.toNat))
    have hzero : '0'.toNat = 48 := rfl
    rw [Nat.ofDigitChars_cons, List.length_cons, Nat.add_sub_add_right, Nat.pow_succ',
      ← Nat.mul_assoc, ← Nat.mul_assoc]
    exact ⟨Nat.le_trans (Nat.mul_le_mul_right _ (by omega)) h1,
      Nat.lt_of_lt_of_le h2 (Nat.mul_le_mul_right _ (by omega))⟩

/-- Of two rows of digits, read as decimal places, the lesser one comes first; one may end early if only
what is less than a digit follows. -/
theorem digits_lt {k : Nat} {a b : List Char} (ha : ∀ c ∈ a, c.isDigit = true)
    (hb : ∀ c ∈ b, c.isDigit = true) (hka : a.length ≤ k) (hkb : b.length ≤ k) {i : Nat}
    (h : Nat.ofDigitChars 10 a i * 10 ^ (k - a.length) <
      Nat.ofDigitChars 10 b i * 10 ^ (k - b.length))
    {r : List Char} (hr : b.length ≤ a.length ∨ Low r) (s : List Char) : a ++ r < b ++ s := by
  induction a generalizing b k i with
  | nil =>
    cases b with
    | nil => exact absurd h (Nat.lt_irrefl _)
    | cons d b =>
      have hd : d.isDigit = true := hb d List.mem_cons_self
      exact (hr.resolve_left (Nat.not_succ_le_zero _)).lt_cons (point_le_digit hd) (b ++ s)
  | cons c a ih =>
    cases b with
    | nil =>
      have hle := (ofDigitChars_bounds ha hka i).1
      exact absurd h (Nat.not_lt.2 hle)
    | cons d b =>
      obtain ⟨-, hrest⟩ := List.forall_mem_cons.1 ha
      obtain ⟨hd, hrest'⟩ := List.forall_mem_cons.1 hb
      obtain ⟨k, rfl⟩ : ∃ j, k = j + 1 := ⟨k - 1, by rw [List.length_cons] at hka; omega⟩
      rw [List.cons_append, List.cons_append, List.cons_lt_cons_iff]
      rw [Nat.ofDigitChars_cons, Nat.ofDigitChars_cons, List.length_cons, List.length_cons,
        Nat.add_sub_add_right, Nat.add_sub_add_right] at h
      rcases Nat.lt_trichotomy c.toNat d.toNat with hlt | heq | hgt
      · exact .inl hlt
      · rw [Char.toNat_inj] at heq
        subst heq
        refine .inr ⟨rfl, ih hrest hrest' (Nat.le_of_succ_le_succ hka) (Nat.le_of_succ_le_succ hkb) h ?_⟩
        exact hr.imp_left Nat.le_of_succ_le_succ
      · -- the greater digit outweighs all places behind it
        have hlow := (ofDigitChars_bounds hrest (Nat.le_of_succ_le_succ hka)
          (10 * i + (c.toNat - '0'.toNat))).1
        have hhigh := (ofDigitChars_bounds hrest' (Nat.le_of_succ_le_succ hkb)
          (10 * i + (d.toNat - '0'.toNat))).2
        have hzero : '0'.toNat = 48 := rfl
        have hbounds := digit_bounds hd
        have hle : (10 * i + (d.toNat - '0'.toNat) + 1) * 10 ^ k ≤
            (10 * i + (c.toNat - '0'.toNat)) * 10 ^ k := Nat.mul_le_mul_right _ (by omega)
        omega

/-- A number of a fixed width comes before a greater one, and what follows decides between equal ones. -/
theorem padded_lt {w m n : Nat} (hw : 0 < w) (hn : n < 10 ^ w) {r s : List Char}
    (h : m < n ∨ m = n ∧ r < s) : padded w m ++ r < padded w n ++ s := by
  rcases h with hlt | ⟨rfl, hrest⟩
  · have hm := length_padded hw (Nat.lt_trans hlt hn)
    have hn := length_padded hw hn
    refine digits_lt (fun _ => isDigit_of_mem_padded) (fun _ => isDigit_of_mem_padded)
      (Nat.le_of_eq hm) (Nat.le_of_eq hn) (i := 0) ?_ (.inl (Nat.le_of_eq (hn.trans hm.symm))) s
    rw [padded_value, padded_value, hm, hn]
    exact Nat.mul_lt_mul_of_pos_right hlt (Nat.pow_pos (by decide))
  · exact (append_lt_append_iff _).2 hrest

theorem cons_lt {c : Char} {r s : List Char} (h : r < s) : c :: r < c :: s :=
  List.cons_lt_cons_iff.2 (.inr ⟨rfl, h⟩)

end Text

/-! ## Dates and times -/

namespace Calendar

open Text (Low padded padded_lt cons_lt)

/-- The shorter row of decimal places is not followed by a digit. -/
theorem fractionText_lt {m n : Nat} (hn : n < second) (h : m < n) {r : List Char} (hr : Low r)
    (s : List Char) : (fractionText m).toList ++ r < (fractionText n).toList ++ s := by
  have hm : m < second := Nat.lt_trans h hn
  rw [toList_fractionText, toList_fractionText, if_neg (Nat.ne_of_gt (Nat.zero_lt_of_lt h))]
  split
  · exact hr.lt_cons (Char.le_refl _) _
  · have hplaces : placesValue (places m) < placesValue (places n) := by
      rwa [placesValue_places hm, placesValue_places hn]
    exact cons_lt (Text.digits_lt (fun _ => isDigit_of_mem_places) (fun _ => isDigit_of_mem_places)
      (length_places_le hm) (length_places_le hn) hplaces (.inr hr) s)

/-- The earlier of two times of day has the lesser text, before whatever is less than a point. -/
theorem Time.text_lt {t u : Time} (h : t < u) {r : List Char} (hr : Low r) (s : List Char) :
    t.text.toList ++ r < u.text.toList ++ s := by
  obtain ⟨ht, htn, htleap⟩ := t.valid
  obtain ⟨hu, hun, huleap⟩ := u.valid
  obtain ⟨hhour, hminute, hsecond⟩ := u.clock_lt
  have hlt : t.seconds < u.seconds ∨ t.seconds = u.seconds ∧ t.nanos < u.nanos := h
  have hnanos : u.nanos % second < second := Nat.mod_lt _ (by decide)
  -- a second 60 is the leap second of second 59
  have hfields : t.seconds / 3600 < u.seconds / 3600 ∨ t.seconds / 3600 = u.seconds / 3600 ∧
      (t.seconds / 60 % 60 < u.seconds / 60 % 60 ∨ t.seconds / 60 % 60 = u.seconds / 60 % 60 ∧
        (t.seconds % 60 + t.nanos / second < u.seconds % 60 + u.nanos / second ∨
          t.seconds % 60 + t.nanos / second = u.seconds % 60 + u.nanos / second ∧
            t.nanos % second < u.nanos % second)) := by
    simp only [second] at *
    omega
  simp only [toList_text, List.append_assoc, List.cons_append]
  refine padded_lt (by decide) hhour (hfields.imp_right fun hour => ⟨hour.1, cons_lt ?_⟩)
  refine padded_lt (by decide) hminute (hour.2.imp_right fun minute => ⟨minute.1, cons_lt ?_⟩)
  exact padded_lt (by decide) hsecond
    (minute.2.imp_right fun sec => ⟨sec.1, fractionText_lt hnanos sec.2 hr s⟩)

/-- The earlier of two dates has the lesser text, whatever follows. -/
theorem Date.text_lt {d e : Date} (hd : 0 ≤ d.year) (he : e.year ≤ 9999) (h : d < e)
    (r s : List Char) : d.text.toList ++ r < e.text.toList ++ s := by
  have hfields := lt_iff.1 h
  have hyears : 0 ≤ e.year ∧ d.year ≤ 9999 := by
    unfold Precedes at hfields
    omega
  have hyear : e.year.toNat < 10 ^ 4 := by omega
  simp only [toList_text, toList_yearText_plain ⟨hd, hyears.2⟩, toList_yearText_plain ⟨hyears.1, he⟩,
    List.append_assoc, List.cons_append]
  refine padded_lt (by decide) hyear (hfields.imp (fun hlt => by omega) fun ⟨hsame, hfields⟩ =>
    ⟨congrArg Int.toNat hsame, cons_lt ?_⟩)
  refine padded_lt (by decide) e.month_lt (hfields.imp_right fun ⟨hsame, hday⟩ =>
    ⟨hsame, cons_lt ?_⟩)
  exact padded_lt (by decide) e.day_lt (.inl hday)

/-- The earlier of two points in time has the lesser text, whatever stands between date and time. -/
theorem DateTime.text_lt {t u : DateTime} (ht : 0 ≤ t.date.year) (hu : u.date.year ≤ 9999)
    (h : t < u) (c : Char) {r : List Char} (hr : Low r) (s : List Char) :
    t.date.text.toList ++ c :: (t.time.text.toList ++ r) <
      u.date.text.toList ++ c :: (u.time.text.toList ++ s) := by
  rcases lt_iff.1 h with hdate | ⟨hdate, htime⟩
  · exact Date.text_lt ht hu hdate _ _
  · rw [hdate]
    exact (Text.append_lt_append_iff _).2 (cons_lt (Time.text_lt htime hr s))

end Calendar

end Orm
