import Mathlib.Data.Int.Log
import Mathlib.Data.Rat.Floor
import Mathlib.Tactic.FieldSimp
import Mathlib.Tactic.Positivity
import Mathlib.Tactic.Ring
import Orm.Number.Binary

/-
A number of single precision is its own nearest one.

The bits of a format are read as `m * 2 ^ q` in its canonical form, and a fraction of exactly that
value is rounded to the same bits: no place is lost, so the quotient is whole and the exponent is
the one of the form. A double has more places and a wider range of exponents than a single, hence
holds every single exactly, and rounding to single precision twice is rounding once.
-/

namespace Orm.Number

/-! ## Powers and logarithms -/

theorem two_zpow (e : Int) : (2 : ℚ) ^ e = 2 ^ e.toNat / 2 ^ (-e).toNat := by
  obtain ⟨n, rfl | rfl⟩ := e.eq_nat_or_neg <;> simp

theorem log_eq {r : ℚ} {e : Int} (lower : 2 ^ e ≤ r) (upper : r < 2 ^ (e + 1)) :
    Int.log 2 r = e := by
  have positive : 0 < r := (zpow_pos two_pos e).trans_le lower
  have le := (Int.zpow_le_iff_le_log one_lt_two positive).1 (by simpa using lower)
  have lt := (Int.lt_zpow_iff_log_lt one_lt_two positive).1 (by simpa using upper)
  omega

theorem two_pow_log2_le {n : Nat} (hn : n ≠ 0) : (2 : ℚ) ^ n.log2 ≤ n := by
  exact_mod_cast Nat.log2_self_le hn

theorem lt_two_pow_log2 (n : Nat) : (n : ℚ) < 2 ^ (n.log2 + 1) := by
  exact_mod_cast Nat.lt_log2_self

theorem log_mul_two_zpow {m : Nat} (hm : m ≠ 0) (q : Int) :
    Int.log 2 ((m : ℚ) * 2 ^ q) = m.log2 + q := by
  apply log_eq
  · rw [zpow_add₀ two_ne_zero, zpow_natCast]
    exact mul_le_mul_of_nonneg_right (two_pow_log2_le hm) (zpow_pos two_pos q).le
  · rw [show (m.log2 : Int) + q + 1 = ((m.log2 + 1 : Nat) : Int) + q by push_cast; ring,
      zpow_add₀ two_ne_zero, zpow_natCast]
    exact mul_lt_mul_of_pos_right (lt_two_pow_log2 m) (zpow_pos two_pos q)

namespace Format

/-- The exponent is that of the quotient: the estimate from the two lengths is right or one high. -/
theorem floorLog2_eq {num den : Nat} (hn : num ≠ 0) (hd : den ≠ 0) :
    floorLog2 num den = Int.log 2 ((num : ℚ) / den) := by
  have denPositive : (0 : ℚ) < den := by positivity
  have below : (2 : ℚ) ^ ((num.log2 : Int) - den.log2 - 1) ≤ num / den := by
    rw [le_div_iff₀ denPositive, show (num.log2 : Int) - den.log2 - 1
      = (num.log2 : Int) - ((den.log2 + 1 : Nat) : Int) by push_cast; ring,
      zpow_sub₀ two_ne_zero, zpow_natCast, zpow_natCast, div_mul_eq_mul_div,
      div_le_iff₀ (by positivity)]
    exact mul_le_mul (two_pow_log2_le hn) (lt_two_pow_log2 den).le denPositive.le (by positivity)
  have above : (num : ℚ) / den < 2 ^ ((num.log2 : Int) - den.log2 + 1) := by
    rw [div_lt_iff₀ denPositive, show (num.log2 : Int) - den.log2 + 1
      = ((num.log2 + 1 : Nat) : Int) - (den.log2 : Int) by push_cast; ring,
      zpow_sub₀ two_ne_zero, zpow_natCast, zpow_natCast, div_mul_eq_mul_div,
      lt_div_iff₀ (by positivity)]
    exact mul_lt_mul (lt_two_pow_log2 num) (two_pow_log2_le hd) (by positivity) (by positivity)
  simp only [floorLog2]
  generalize (num.log2 : Int) - den.log2 = e at below above ⊢
  have compared : num * Nat.pow 2 (-e).toNat < den * Nat.pow 2 e.toNat ↔
      (num : ℚ) / den < 2 ^ e := by
    rw [two_zpow, div_lt_div_iff₀ denPositive (by positivity), mul_comm ((2 : ℚ) ^ e.toNat)]
    exact_mod_cast Iff.rfl
  split
  case isTrue low =>
    exact (log_eq below (by simpa using compared.1 low)).symm
  case isFalse high =>
    exact (log_eq (not_lt.1 (mt compared.2 high)) above).symm

theorem roundQuotient_mul (m : Nat) {d : Nat} (hd : 0 < d) : roundQuotient (m * d) d = m := by
  simp [roundQuotient, Nat.mul_div_cancel m hd]
  omega

/-! ## Canonical forms -/

/-- `m * 2 ^ q` as the format keeps it: the leading bit stands unless the exponent is the least. -/
structure Canonical (f : Format) (m : Nat) (q : Int) : Prop where
  lt : m < 2 ^ f.precision
  least : f.minExponent ≤ q
  leading : 2 ^ (f.precision - 1) ≤ m ∨ q = f.minExponent
  bounded : (q - f.minExponent).toNat * 2 ^ (f.precision - 1) + m < f.infinityBits

variable {f : Format} {m : Nat} {q : Int}

/-- The exponent that rounding picks for a canonical number is its own. -/
theorem Canonical.exponent (h : f.Canonical m q) (hp : 0 < f.precision) (hm : m ≠ 0) :
    max (m.log2 + q - (f.precision - 1 : Nat)) f.minExponent = q := by
  have log_lt : m.log2 < f.precision := (Nat.log2_lt hm).2 h.lt
  have least := h.least
  obtain leading | subnormal := h.leading
  · have := (Nat.le_log2 hm).2 leading
    omega
  · omega

theorem Canonical.encodeMagnitude (h : f.Canonical m q) (hp : 0 < f.precision) {num den : Nat}
    (hd : den ≠ 0) (value : (num : ℚ) / den = m * 2 ^ q) :
    f.encodeMagnitude num den = (q - f.minExponent).toNat * 2 ^ (f.precision - 1) + m := by
  have denPositive : (0 : ℚ) < den := by positivity
  by_cases hm : m = 0
  · subst hm
    have subnormal : q = f.minExponent :=
      h.leading.resolve_left (by simp)
    have : num = 0 := by simpa [hd] using value
    simp [Format.encodeMagnitude, this, subnormal]
  have hn : num ≠ 0 := by
    rintro rfl
    simp [hm, zpow_ne_zero] at value
  have whole : num * 2 ^ (-q).toNat = m * (den * 2 ^ q.toNat) := by
    rw [div_eq_iff denPositive.ne', two_zpow] at value
    field_simp at value
    rw [mul_right_comm, mul_assoc] at value
    exact_mod_cast value
  have exponent : max (floorLog2 num den - (f.precision - 1 : Nat)) f.minExponent = q := by
    rw [floorLog2_eq hn hd, value, log_mul_two_zpow hm, h.exponent hp hm]
  simp only [Format.encodeMagnitude, hn, ↓reduceIte, exponent, Nat.pow_eq, whole]
  rw [roundQuotient_mul m (Nat.mul_pos (Nat.pos_of_ne_zero hd) (Nat.two_pow_pos _))]
  exact min_eq_left h.bounded.le

theorem infinityBits_lt (hp : 0 < f.precision) : f.infinityBits < f.signBit := by
  simp only [infinityBits, signBit, Nat.pow_eq]
  rw [Nat.add_sub_assoc hp, Nat.pow_add]
  exact Nat.mul_lt_mul_of_pos_right (Nat.sub_one_lt (by positivity)) (Nat.two_pow_pos _)

/-- The bits of a canonical number read back as it. -/
theorem Canonical.read_bits (h : f.Canonical m q) (hp : 0 < f.precision) (negative : Bool) :
    f.read ((if negative then f.signBit else 0) +
      ((q - f.minExponent).toNat * 2 ^ (f.precision - 1) + m)) = .finite negative m q := by
  have small := h.bounded.trans (infinityBits_lt hp)
  have places : 0 < 2 ^ (f.precision - 1) := Nat.two_pow_pos _
  have double : 2 ^ f.precision = 2 * 2 ^ (f.precision - 1) := by
    rw [← Nat.pow_succ', Nat.succ_eq_add_one, Nat.sub_add_cancel hp]
  obtain ⟨lt, least, leading, bounded⟩ := h
  generalize hk : (q - f.minExponent).toNat = k at *
  have hq : q = f.minExponent + k := by omega
  have sign : decide (f.signBit ≤ (if negative then f.signBit else 0) +
      (k * 2 ^ (f.precision - 1) + m)) = negative := by
    cases negative <;> simp
    omega
  have magnitude : ((if negative then f.signBit else 0) + (k * 2 ^ (f.precision - 1) + m))
      % f.signBit = k * 2 ^ (f.precision - 1) + m := by
    cases negative <;> simp [Nat.mod_eq_of_lt small]
  simp only [Format.read, sign, magnitude, Nat.pow_eq, bounded.ne, bounded.not_gt, ↓reduceIte]
  obtain normal | subnormal := Nat.lt_or_ge m (2 ^ (f.precision - 1)) |>.symm
  · obtain ⟨r, rfl⟩ := Nat.exists_eq_add_of_le normal
    have hr : r < 2 ^ (f.precision - 1) := by omega
    rw [← Nat.add_assoc, ← Nat.succ_mul, Nat.add_comm, Nat.add_mul_div_right _ _ places,
      Nat.add_mul_mod_self_right, Nat.div_eq_of_lt hr, Nat.mod_eq_of_lt hr]
    simp [hq]
  · have : q = f.minExponent := leading.resolve_left (by omega)
    have : k = 0 := by omega
    simp [this, Nat.div_eq_of_lt subnormal, Nat.mod_eq_of_lt subnormal, hq]

/-- Whatever reads as a finite number reads as a canonical one. -/
theorem canonical_of_read {bits : Nat} {negative : Bool} (hp : 0 < f.precision)
    (h : f.read bits = .finite negative m q) : f.Canonical m q := by
  have places : 0 < 2 ^ (f.precision - 1) := Nat.two_pow_pos _
  have double : 2 ^ f.precision = 2 * 2 ^ (f.precision - 1) := by
    rw [← Nat.pow_succ', Nat.succ_eq_add_one, Nat.sub_add_cancel hp]
  simp only [Format.read, Nat.pow_eq] at h
  generalize bits % f.signBit = magnitude at h
  have split := Nat.div_add_mod' magnitude (2 ^ (f.precision - 1))
  have fraction := Nat.mod_lt magnitude places
  generalize magnitude / 2 ^ (f.precision - 1) = exponent at h split
  generalize magnitude % 2 ^ (f.precision - 1) = fraction at *
  split at h
  · cases h
  split at h
  · cases h
  have bounded : magnitude < f.infinityBits := by omega
  split at h
  case isTrue zero =>
    cases h
    subst zero
    exact ⟨by omega, le_rfl, .inr rfl, by simpa [← split] using bounded⟩
  case isFalse nonzero =>
    cases h
    obtain ⟨k, rfl⟩ := Nat.exists_eq_succ_of_ne_zero nonzero
    refine ⟨by omega, by omega, .inl (by omega), ?_⟩
    have : (f.minExponent + (((k + 1 : Nat) : Int) - 1) - f.minExponent).toNat = k := by omega
    rw [Nat.succ_eq_add_one, this, ← Nat.add_assoc, ← Nat.succ_mul]
    exact split ▸ bounded

theorem Canonical.read_encode (h : f.Canonical m q) (hp : 0 < f.precision) {num den : Nat}
    (hd : den ≠ 0) (value : (num : ℚ) / den = m * 2 ^ q) (negative : Bool) :
    f.read (f.encode negative num den) = .finite negative m q := by
  rw [Format.encode, h.encodeMagnitude hp hd value, h.read_bits hp]

/-! ## Two formats -/

theorem double_bits_lt (negative : Bool) (num den : Nat) :
    double.encode negative num den < 2 ^ 64 := by
  have : double.encodeMagnitude num den ≤ double.infinityBits := by
    unfold encodeMagnitude
    split
    · exact Nat.zero_le _
    · exact min_le_right _ _
  have : double.infinityBits = 2047 * 2 ^ 52 := rfl
  have : double.signBit = 2 ^ 63 := rfl
  unfold encode
  split <;> omega

/-- A double holds every number of single precision. -/
theorem Canonical.widen (h : single.Canonical m q) :
    ∃ m' q', double.Canonical m' q' ∧ (m' : ℚ) * 2 ^ q' = m * 2 ^ q := by
  obtain ⟨lt, least, -, bounded⟩ := h
  have : single.minExponent = -149 := rfl
  have : double.minExponent = -1074 := rfl
  have : single.infinityBits = 255 * 2 ^ 23 := rfl
  simp only [show single.precision = 24 from rfl] at lt bounded
  by_cases hm : m = 0
  · exact ⟨0, -1074, ⟨by decide, by omega, .inr (by omega), by decide⟩, by simp [hm]⟩
  have log_lt : m.log2 < 24 := (Nat.log2_lt hm).2 lt
  -- the leading bit moves to the place that a double keeps it in
  obtain ⟨k, hk⟩ : ∃ k, m.log2 + k = 52 := ⟨52 - m.log2, by omega⟩
  have upper : m * 2 ^ k < 2 ^ 53 := by
    rw [show 53 = m.log2 + 1 + k by omega, Nat.pow_add]
    exact Nat.mul_lt_mul_of_pos_right Nat.lt_log2_self (Nat.two_pow_pos k)
  have lower : 2 ^ 52 ≤ m * 2 ^ k := by
    rw [← hk, Nat.pow_add]
    exact Nat.mul_le_mul_right _ (Nat.log2_self_le hm)
  refine ⟨m * 2 ^ k, q - k, ⟨upper, by omega, .inl lower, ?_⟩, ?_⟩
  · have exponent : (q - k - double.minExponent).toNat ≤ 2044 := by omega
    calc (q - k - double.minExponent).toNat * 2 ^ 52 + m * 2 ^ k
      _ < 2044 * 2 ^ 52 + 2 ^ 53 := Nat.add_lt_add_of_le_of_lt (Nat.mul_le_mul_right _ exponent) upper
      _ ≤ double.infinityBits := by decide
  · rw [zpow_sub₀ two_ne_zero, zpow_natCast]
    push_cast
    field_simp

end Format

/-! ## Rounding to single precision -/

namespace Binary64

theorem ratio_value (m : Nat) (q : Int) :
    ((ratio m q).1 : ℚ) / (ratio m q).2 = m * 2 ^ q := by
  simp [ratio, two_zpow, mul_div_assoc]

theorem ratio_den_ne_zero (m : Nat) (q : Int) : (ratio m q).2 ≠ 0 :=
  (Nat.two_pow_pos _).ne'

variable {m : Nat} {q : Int}

theorem ofSingleBits_of_read {bits : Nat} {negative : Bool}
    (h : Format.single.read bits = .finite negative m q) :
    ofSingleBits bits = ofRatio negative (ratio m q).1 (ratio m q).2 := by
  simp only [ofSingleBits, h]

/-- The double that holds a number of single precision reads as one of the same value. -/
theorem read_ofRatio (h : Format.single.Canonical m q) (negative : Bool) :
    ∃ m' q', (ofRatio negative (ratio m q).1 (ratio m q).2).read = .finite negative m' q' ∧
      (m' : ℚ) * 2 ^ q' = m * 2 ^ q := by
  obtain ⟨m', q', canonical, same⟩ := h.widen
  refine ⟨m', q', ?_, same⟩
  rw [Binary64.read, ofRatio, UInt64.toNat_ofNat_of_lt' (Format.double_bits_lt ..)]
  exact canonical.read_encode (by decide) (ratio_den_ne_zero m q)
    ((ratio_value m q).trans same.symm) negative

theorem toSingle_ofRatio (h : Format.single.Canonical m q) (negative : Bool) :
    (ofRatio negative (ratio m q).1 (ratio m q).2).toSingle =
      ofRatio negative (ratio m q).1 (ratio m q).2 := by
  obtain ⟨m', q', read, same⟩ := read_ofRatio h negative
  refine ofSingleBits_of_read ?_
  simp only [singleBits, read]
  exact h.read_encode (by decide) (ratio_den_ne_zero m' q') ((ratio_value m' q').trans same) negative

/-- A number of single precision stays what it is. -/
theorem toSingle_ofSingleBits (bits : Nat) :
    (ofSingleBits bits).toSingle = ofSingleBits bits := by
  cases h : Format.single.read bits with
  | nan =>
    simp only [ofSingleBits, h]
    cases decide (Format.single.signBit ≤ bits) <;> rfl
  | infinite negative =>
    simp only [ofSingleBits, h]
    cases negative <;> rfl
  | finite negative m q =>
    rw [ofSingleBits_of_read h]
    exact toSingle_ofRatio (Format.canonical_of_read (by decide) h) negative

/-- Rounding to single precision twice is rounding once. -/
theorem toSingle_toSingle (x : Binary64) : x.toSingle.toSingle = x.toSingle :=
  toSingle_ofSingleBits x.singleBits

end Binary64

end Orm.Number
