import Mathlib.Algebra.Group.Nat.Defs
import Orm.Bytes
import Orm.Text.Words

/-
Numbers in a text. A row of digits is read to its end, so that a number can be told from the text that it
begins, however it is padded (`padded_append_inj`).
-/

namespace Orm.Text

/-- No digit follows. -/
def Stops (r : List Char) : Prop := ∀ c ∈ r.head?, c.isDigit = false

@[simp] theorem stops_nil : Stops [] := nofun

@[simp] theorem stops_cons {c : Char} {r : List Char} : Stops (c :: r) ↔ c.isDigit = false := by
  simp [Stops]

theorem digits_append_inj {a b r s : List Char} (ha : ∀ c ∈ a, c.isDigit = true)
    (hb : ∀ c ∈ b, c.isDigit = true) (hr : Stops r) (hs : Stops s) (h : a ++ r = b ++ s) :
    a = b ∧ r = s := by
  have hnone : ∀ {t : List Char}, Stops t → t.takeWhile Char.isDigit = [] := by
    intro t ht
    cases t with
    | nil => rfl
    | cons c t => rw [List.takeWhile_cons_of_neg (by simpa using ht)]
  have htake := congrArg (List.takeWhile Char.isDigit) h
  rw [List.takeWhile_append_of_pos ha, List.takeWhile_append_of_pos hb, hnone hr, hnone hs,
    List.append_nil, List.append_nil] at htake
  exact ⟨htake, List.append_cancel_left (htake ▸ h)⟩

/-! ## Padded numbers -/

/-- The digits of a number, with zeros in front of them. -/
def padded (width n : Nat) : List Char :=
  List.replicate (width - (Nat.toDigits 10 n).length) '0' ++ Nat.toDigits 10 n

@[simp] theorem toList_padLeft (width n : Nat) :
    (padLeft width '0' (toString n)).toList = padded width n := by
  rw [padLeft, padded, String.toList_append, String.toList_ofList, Nat.toString_eq_ofList_toDigits,
    String.toList_ofList, String.length_ofList]

@[simp] theorem toList_toString (n : Nat) : (toString n).toList = padded 0 n := by
  rw [padded, Nat.toString_eq_ofList_toDigits, String.toList_ofList, Nat.zero_sub]
  rfl

theorem isDigit_of_mem_padded {width n : Nat} {c : Char} (h : c ∈ padded width n) :
    c.isDigit = true := by
  rcases List.mem_append.1 h with h | h
  · rw [List.eq_of_mem_replicate h]
    rfl
  · exact Nat.isDigit_of_mem_toDigits (by decide) (by decide) h

theorem not_mem_padded {width n : Nat} {c : Char} (h : c.isDigit = false) : c ∉ padded width n :=
  fun hc => Bool.false_ne_true (h.symm.trans (isDigit_of_mem_padded hc))

theorem padded_value (width n : Nat) : Nat.ofDigitChars 10 (padded width n) 0 = n := by
  rw [padded, Nat.ofDigitChars_append, Nat.ofDigitChars_replicate_zero, Nat.mul_zero,
    Nat.ofDigitChars_ten_toDigits]

theorem length_padded {width n : Nat} (hw : 0 < width) (h : n < 10 ^ width) :
    (padded width n).length = width := by
  have := (Nat.length_toDigits_le_iff (by decide : 1 < 10) hw).2 h
  rw [padded, List.length_append, List.length_replicate]
  omega

theorem padded_ne_nil (width n : Nat) : padded width n ≠ [] := fun h =>
  Nat.toDigits_ne_nil (List.append_eq_nil_iff.1 h).2

/-- A number is known from the text that it begins. -/
theorem padded_append_inj {v w m n : Nat} {r s : List Char} (hr : Stops r) (hs : Stops s)
    (h : padded v m ++ r = padded w n ++ s) : m = n ∧ r = s := by
  obtain ⟨hd, hrest⟩ := digits_append_inj (fun _ => isDigit_of_mem_padded)
    (fun _ => isDigit_of_mem_padded) hr hs h
  refine ⟨?_, hrest⟩
  rw [← padded_value v m, hd, padded_value]

theorem nat_toString_injective {m n : Nat} (h : toString m = toString n) : m = n := by
  have h := congrArg String.toList h
  rw [toList_toString, toList_toString] at h
  rw [← padded_value 0 m, h, padded_value]

/-- A number does not begin with a character that is no digit. -/
theorem padded_append_ne_cons {w n : Nat} {c : Char} (hc : c.isDigit = false) (r s : List Char) :
    padded w n ++ r ≠ c :: s := by
  intro h
  obtain ⟨d, ds, hd⟩ := List.exists_cons_of_ne_nil (padded_ne_nil w n)
  rw [hd, List.cons_append] at h
  have hmem : c ∈ padded w n := hd ▸ (List.cons.inj h).1 ▸ List.mem_cons_self
  exact not_mem_padded hc hmem

theorem toList_int_toString (n : Int) :
    (toString n).toList = (if n < 0 then ['-'] else []) ++ padded 0 n.natAbs := by
  cases n with
  | ofNat m => exact toList_toString m
  | negSucc m =>
    rw [if_pos (Int.negSucc_lt_zero m)]
    exact (String.toList_append).trans (congrArg ('-' :: ·) (toList_toString (m + 1)))

theorem int_toString_append_inj {m n : Int} {r s : List Char} (hr : Stops r) (hs : Stops s)
    (h : (toString m).toList ++ r = (toString n).toList ++ s) : m = n ∧ r = s := by
  rw [toList_int_toString, toList_int_toString] at h
  by_cases hm : m < 0 <;> by_cases hn : n < 0
  · rw [if_pos hm, if_pos hn] at h
    obtain ⟨habs, hrest⟩ := padded_append_inj hr hs (List.cons.inj h).2
    exact ⟨by omega, hrest⟩
  · rw [if_pos hm, if_neg hn] at h
    exact absurd h.symm (padded_append_ne_cons (by decide) _ _)
  · rw [if_neg hm, if_pos hn] at h
    exact absurd h (padded_append_ne_cons (by decide) _ _)
  · rw [if_neg hm, if_neg hn] at h
    obtain ⟨habs, hrest⟩ := padded_append_inj hr hs h
    exact ⟨by omega, hrest⟩

/-! ## Hexadecimal digits -/

theorem hexDigit_injective {m n : Nat} (hm : m < 16) (hn : n < 16) (h : hexDigit m = hexDigit n) :
    m = n := by
  have hall : ∀ i < 16, ∀ j < 16, hexDigit i = hexDigit j → i = j := by decide
  exact hall m hm n hn h

theorem mem_hexFixed {width n : Nat} {c : Char} (h : c ∈ hexFixed width n) :
    ∃ d < 16, c = hexDigit d := by
  induction width generalizing n with
  | zero => cases h
  | succ width ih =>
    rcases List.mem_append.1 h with h | h
    · exact ih h
    · exact ⟨n % 16, Nat.mod_lt _ (by decide), List.mem_singleton.1 h⟩

theorem length_hexFixed (width n : Nat) : (hexFixed width n).length = width := by
  induction width generalizing n with
  | zero => rfl
  | succ width ih => rw [hexFixed, List.length_append, ih, List.length_singleton]

theorem hexFixed_injective {width m n : Nat} (hm : m < 16 ^ width) (hn : n < 16 ^ width)
    (h : hexFixed width m = hexFixed width n) : m = n := by
  induction width generalizing m n with
  | zero => omega
  | succ width ih =>
    rw [Nat.pow_succ] at hm hn
    obtain ⟨hhigh, hlow⟩ := List.append_inj' h rfl
    have hdiv := ih (by omega) (by omega) hhigh
    have hmod := hexDigit_injective (by omega) (by omega) (List.singleton_inj.1 hlow)
    omega

end Orm.Text
