import Mathlib.Algebra.Group.Int.Defs
import Orm.Number.Fixed
import Orm.Number.Integer
import Orm.Proofs.Chronology.Text

/-
Whole numbers in texts. A number of a type is read from its text (`readInteger_toString`): while the digits
are read from the left, none of the numbers on the way is out of the range.
-/

namespace Orm.Number

open Text (padded)

theorem IntRange.contains_iff {r : IntRange} {n : Int} :
    r.contains n = true ↔ r.lo ≤ n ∧ n ≤ r.hi := by
  rw [contains, Bool.and_eq_true, decide_eq_true_iff, decide_eq_true_iff]

theorem IntRange.signed_contains_iff (bits : Nat) {n : Int} :
    (signed bits).contains n = true ↔ -2 ^ (bits - 1) ≤ n ∧ n < 2 ^ (bits - 1) := by
  rw [contains_iff, signed, Nat.pow_eq, Int.natCast_pow, Int.le_sub_one_iff]
  rfl

/-- A number with a sign. -/
def withSign (negative : Bool) (n : Nat) : Int := if negative then -n else n

theorem withSign_false (n : Nat) : withSign false n = n := rfl

theorem withSign_true (n : Nat) : withSign true n = -n := rfl

theorem le_ofDigitChars {cs : List Char} (hcs : ∀ c ∈ cs, c.isDigit = true) (m : Nat) :
    m ≤ Nat.ofDigitChars 10 cs m := by
  have hle := (Text.ofDigitChars_bounds hcs (Nat.le_refl _) m).1
  rw [Nat.sub_self, Nat.pow_zero, Nat.mul_one] at hle
  exact Nat.le_trans (Nat.le_mul_of_pos_right _ (Nat.pow_pos (by decide))) hle

/-- Digits are read to their end if the number that they make is in the range. -/
theorem readDigits_digits {r : IntRange} (hlo : r.lo ≤ 0) (hhi : 0 ≤ r.hi) (negative : Bool)
    {cs : List Char} (hcs : ∀ c ∈ cs, c.isDigit = true) {m : Nat}
    (h : r.contains (withSign negative (Nat.ofDigitChars 10 cs m)) = true) :
    readDigits r negative (withSign negative m) cs =
      .ok (withSign negative (Nat.ofDigitChars 10 cs m)) := by
  induction cs generalizing m with
  | nil => rfl
  | cons c cs ih =>
    obtain ⟨hc, hcs⟩ := List.forall_mem_cons.1 hcs
    obtain ⟨d, hd⟩ : ∃ d, d = c.toNat - '0'.toNat := ⟨_, rfl⟩
    rw [Nat.ofDigitChars_cons, ← hd] at h ⊢
    have hnext : (if negative then 10 * withSign negative m - d else 10 * withSign negative m + d) =
        withSign negative (10 * m + d) := by
      unfold withSign
      split <;> omega
    have hle := le_ofDigitChars hcs (10 * m + d)
    have hrange : ¬withSign negative (10 * m + d) < r.lo ∧ ¬r.hi < withSign negative (10 * m + d) := by
      rw [IntRange.contains_iff] at h
      cases negative
      · rw [withSign_false] at h ⊢
        omega
      · rw [withSign_true] at h ⊢
        omega
    rw [readDigits, Calendar.digitValue?_eq hc, ← hd]
    simp only [hnext, if_neg hrange.1, if_neg hrange.2]
    exact ih hcs h

/-- A number that a type holds is read from its text. -/
theorem readInteger_toString {r : IntRange} (hlo : r.lo < 0) (hhi : 0 ≤ r.hi) {n : Int}
    (h : r.contains n = true) : readInteger r (toString n) = .ok n := by
  have hdigits : ∀ c ∈ padded 0 n.natAbs, c.isDigit = true := fun _ => Text.isDigit_of_mem_padded
  have hvalue := Text.padded_value 0 n.natAbs
  obtain ⟨c, cs, hcs⟩ := List.exists_cons_of_ne_nil (Text.padded_ne_nil 0 n.natAbs)
  rw [hcs] at hdigits hvalue
  have hc : c.isDigit = true := hdigits c List.mem_cons_self
  by_cases hn : n < 0
  · have hsame : withSign true n.natAbs = n := by
      rw [withSign_true]
      omega
    have hread := readDigits_digits (Int.le_of_lt hlo) hhi true hdigits (m := 0)
      (by rwa [hvalue, hsame])
    rw [hvalue, hsame] at hread
    rw [readInteger, Text.toList_int_toString, if_pos hn, hcs]
    simp only [List.cons_append, List.nil_append, IntRange.hasNegative, hlo, decide_true, if_true]
    exact hread
  · have hsame : withSign false n.natAbs = n := Int.natAbs_of_nonneg (Int.not_lt.1 hn)
    have hread := readDigits_digits (Int.le_of_lt hlo) hhi false hdigits (m := 0)
      (by rwa [hvalue, hsame])
    rw [hvalue, hsame] at hread
    rw [readInteger, Text.toList_int_toString, if_neg hn, hcs, List.nil_append]
    split
    · rename_i heq
      cases heq
    · rename_i heq
      cases heq
      cases hc
    · rename_i heq
      cases heq
      cases hc
    · rename_i heq
      cases (List.cons.inj heq).1
      cases hc
    · rename_i heq
      cases (List.cons.inj heq).1
      cases hc
    · exact hread

/-- A fixed-point number without decimal places is written as the whole number that it is. -/
theorem Fixed.text_ofInt64 (n : Int64) : (Fixed.ofInt64 n).text = toString n.toInt := by
  apply String.toList_injective
  have hpadded : padded 1 n.toInt.natAbs = padded 0 n.toInt.natAbs := by
    have hpos : 0 < (Nat.toDigits 10 n.toInt.natAbs).length :=
      List.length_pos_iff.2 Nat.toDigits_ne_nil
    rw [padded, padded, Nat.sub_eq_zero_of_le hpos, Nat.zero_sub]
  rw [Text.toList_int_toString, Fixed.text, Fixed.ofInt64]
  simp only [Nat.zero_add, Text.toList_padLeft, hpadded, Nat.sub_zero, List.take_length, if_true,
    String.toList_append, String.toList_ofList, decide_eq_true_iff]
  split <;> simp

end Number

/-! ## Values -/

namespace Value

open Number (IntRange)

theorem solid_intText (n : Int) : Text.Solid (toString n).toList := by
  have hminus : Text.isBlank '-' = false := rfl
  rw [Text.toList_int_toString]
  split <;> simp [hminus]

theorem toInt_text (n : Int64) : (Value.string (toString n.toInt)).toInt = .ok n := by
  have hrange := (IntRange.signed_contains_iff 64).2 ⟨n.le_toInt, n.toInt_lt⟩
  have hread := Number.readInteger_toString (by decide) (by decide) hrange
  simp only [toInt, trimmed?, (solid_intText n.toInt).trim_eq, Option.bind_some, Number.integer?, hread,
    Except.toOption, Option.map_some, Int64.ofInt_toInt, required]

end Value

end Orm
