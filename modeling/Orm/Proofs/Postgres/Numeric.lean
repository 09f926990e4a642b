import Mathlib.Algebra.Group.Nat.Defs
import Orm.Postgres.Format

/-
Numbers in bytes. A whole number in a fixed number of bytes is read as it was written, if it fits
(`ofBigEndian_bigEndian`, `signed?_signedBigEndian`).

NUMERIC data are a row of groups with a header, which is read as it was written (`decode?_encode`), and a
whole number in groups is that number again (`fixed?_ofFixed`).
-/

namespace Orm

/-! ## Whole numbers -/

namespace Number

@[simp] theorem length_bigEndian (width n : Nat) : (bigEndian width n).length = width := by
  induction width generalizing n with
  | zero => rfl
  | succ width ih => rw [bigEndian, List.length_append, ih, List.length_singleton]

theorem ofBigEndian_snoc (bytes : List UInt8) (b : UInt8) :
    ofBigEndian (bytes ++ [b]) = 256 * ofBigEndian bytes + b.toNat := by
  rw [ofBigEndian, List.foldl_append]
  rfl

theorem ofBigEndian_bigEndian {width n : Nat} (h : n < 256 ^ width) :
    ofBigEndian (bigEndian width n) = n := by
  induction width generalizing n with
  | zero =>
    have hzero : n = 0 := Nat.lt_one_iff.1 h
    rw [hzero]
    rfl
  | succ width ih =>
    rw [Nat.pow_succ] at h
    rw [bigEndian, ofBigEndian_snoc, ih (Nat.div_lt_of_lt_mul (Nat.mul_comm _ _ ▸ h)),
      UInt8.toNat_ofNat']
    exact Nat.div_add_mod n 256

/-- The bytes of a number one by one. -/
theorem bigEndian_eq_map (width n : Nat) :
    bigEndian width n = (List.range width).map fun i => UInt8.ofNat (n / 256 ^ (width - 1 - i)) := by
  induction width generalizing n with
  | zero => rfl
  | succ width ih =>
    rw [bigEndian, ih, List.range_succ, List.map_append, List.map_singleton]
    congr 1
    · refine List.map_congr_left fun i hi => ?_
      have hlt : i < width := List.mem_range.1 hi
      have hnext : width + 1 - 1 - i = (width - 1 - i) + 1 := by omega
      rw [hnext, Nat.pow_succ', Nat.div_div_eq_div_mul]
    · rw [Nat.add_sub_cancel, Nat.sub_self, Nat.pow_zero, Nat.div_one]

/-- A number from the lower half of those of its width, or a negative one from the upper half. -/
theorem ofSignedBigEndian_signedBigEndian {width : Nat} {n : Int}
    (hlow : -(256 ^ width : Nat) ≤ 2 * n) (hhigh : 2 * n < (256 ^ width : Nat)) :
    ofSignedBigEndian (signedBigEndian width n) = n := by
  have hbytes : (n % (256 ^ width : Nat)).toNat < 256 ^ width := by omega
  rw [ofSignedBigEndian, signedBigEndian]
  simp only [Nat.pow_eq, length_bigEndian, ofBigEndian_bigEndian hbytes]
  by_cases hn : 0 ≤ n
  · have hsame : n % (256 ^ width : Nat) = n := Int.emod_eq_of_lt hn (by omega)
    rw [hsame, if_pos (by omega)]
    omega
  · have hup : n % (256 ^ width : Nat) = n + (256 ^ width : Nat) := by
      rw [← Int.add_emod_right, Int.emod_eq_of_lt (by omega) (by omega)]
    rw [hup, if_neg (by omega)]
    omega

theorem signed?_signedBigEndian {width : Nat} {n : Int} (hlow : -(256 ^ width : Nat) ≤ 2 * n)
    (hhigh : 2 * n < (256 ^ width : Nat)) : signed? width (signedBigEndian width n) = some n := by
  have hlength : (signedBigEndian width n).length = width := length_bigEndian _ _
  rw [signed?, if_pos hlength, ofSignedBigEndian_signedBigEndian hlow hhigh]

end Number

namespace Postgres

open Number (Fixed bigEndian mantissaBound)

/-! ## Groups -/

theorem groups_zero : groups 0 = [] := by
  rw [groups, if_pos rfl]

theorem groups_eq {n : Nat} (h : n ≠ 0) : groups n = groups (n / 10000) ++ [n % 10000] := by
  rw [groups, if_neg h]

theorem lt_of_mem_groups {n g : Nat} (h : g ∈ groups n) : g < 10000 := by
  induction n using Nat.strongRecOn with
  | _ n ih =>
    by_cases hn : n = 0
    · rw [hn, groups_zero] at h
      cases h
    · rw [groups_eq hn, List.mem_append, List.mem_singleton] at h
      rcases h with h | rfl
      · exact ih _ (Nat.div_lt_self (Nat.pos_of_ne_zero hn) (by decide)) h
      · exact Nat.mod_lt _ (by decide)

theorem length_groups_le {n k : Nat} (h : n < 10000 ^ k) : (groups n).length ≤ k := by
  induction k generalizing n with
  | zero =>
    have hn : n = 0 := Nat.lt_one_iff.1 h
    rw [hn, groups_zero]
    exact Nat.le_refl _
  | succ k ih =>
    by_cases hn : n = 0
    · rw [hn, groups_zero]
      exact Nat.zero_le _
    · rw [Nat.pow_succ] at h
      rw [groups_eq hn, List.length_append, List.length_singleton]
      exact Nat.succ_le_succ (ih (Nat.div_lt_of_lt_mul (Nat.mul_comm _ _ ▸ h)))

/-- A number is put together from its groups, all of whose beginnings fit if it does. -/
theorem foldlM_groups {n : Nat} (h : n < mantissaBound) :
    (groups n).foldlM
      (fun m g => let m := 10000 * m + g; if m < mantissaBound then some m else none) 0 = some n := by
  induction n using Nat.strongRecOn with
  | _ n ih =>
    by_cases hn : n = 0
    · rw [hn, groups_zero]
      rfl
    · have hless := Nat.div_lt_self (Nat.pos_of_ne_zero hn) (by decide : 1 < 10000)
      rw [groups_eq hn, List.foldlM_append, ih _ hless (Nat.lt_trans hless h)]
      have hwhole : 10000 * (n / 10000) + n % 10000 = n := Nat.div_add_mod n 10000
      simp only [Option.bind_eq_bind, Option.bind_some, List.foldlM_cons, List.foldlM_nil, hwhole,
        if_pos h]
      rfl

/-! ## The row and its header -/

namespace Numeric

theorem word?_bigEndian {n : Nat} (h : n < 65536) (r : List UInt8) :
    word? (bigEndian 2 n ++ r) = some (n, r) := by
  have hvalue : Number.ofBigEndian (bigEndian 2 n) = n := Number.ofBigEndian_bigEndian h
  have hbytes : bigEndian 2 n = [UInt8.ofNat (n / 256), UInt8.ofNat n] := rfl
  rw [hbytes] at hvalue ⊢
  rw [List.cons_append, List.singleton_append, word?, hvalue]

theorem words?_flatMap {gs : List Nat} (h : ∀ g ∈ gs, g < 65536) :
    words? gs.length (gs.flatMap (bigEndian 2)) = some gs := by
  induction gs with
  | nil => rfl
  | cons g gs ih =>
    obtain ⟨hg, hgs⟩ := List.forall_mem_cons.1 h
    rw [List.length_cons, List.flatMap_cons, words?, word?_bigEndian hg]
    simp only [Option.bind_eq_bind, Option.bind_some, ih hgs]
    rfl

/-- The parts of a row fit into two bytes each. -/
structure Fits (n : Numeric) : Prop where
  length : n.groups.length < 65536
  weight : -32768 ≤ n.weight ∧ n.weight < 32768
  scale : n.scale < 65536
  groups : ∀ g ∈ n.groups, g < 65536

theorem decode?_encode {n : Numeric} (h : n.Fits) : decode? n.encode = some n := by
  have hsign : (if n.negative then 0x4000 else 0) < 65536 := by
    split <;> decide
  have hweight : Number.ofSignedBigEndian (Number.signedBigEndian 2 n.weight) = n.weight :=
    Number.ofSignedBigEndian_signedBigEndian (by have := h.weight; omega) (by have := h.weight; omega)
  have hlength : (Number.signedBigEndian 2 n.weight).length = 2 := Number.length_bigEndian _ _
  have hnegative : ((if n.negative then 0x4000 else 0) == 0x4000) = n.negative := by
    cases n.negative <;> rfl
  have hdrop : ∀ {a b : List UInt8} {k : Nat}, a.length = 2 → (a ++ b).drop (2 + k) = b.drop k :=
    fun ha => by rw [List.drop_append, List.drop_of_length_le (by omega), ha]; simp
  have hcount := Number.length_bigEndian 2 n.groups.length
  have hsigns := Number.length_bigEndian 2 (if n.negative then 0x4000 else 0)
  simp only [decode?, encode, List.append_assoc, word?_bigEndian h.length,
    hdrop (k := 2) hcount, hdrop (k := 4) hcount, hdrop (k := 0) hcount, hdrop (k := 0) hlength,
    hdrop (k := 2) hlength, hdrop (k := 0) hsigns, List.drop_zero, word?_bigEndian hsign,
    word?_bigEndian h.scale, words?_flatMap h.groups, List.take_left' hlength, hweight, hnegative,
    Option.bind_eq_bind, Option.bind_some]
  rfl

/-! ## Whole numbers in groups -/

theorem ofFixed_whole {x : Fixed} (hscale : x.scale = 0) (hzero : x.mantissa ≠ 0) :
    ofFixed x = ⟨x.negative, (Postgres.groups x.mantissa).length - 1, 0, Postgres.groups x.mantissa⟩ := by
  have hne : (Postgres.groups x.mantissa).length ≠ 0 := by
    rw [groups_eq hzero]
    simp
  simp [ofFixed, hzero, hscale, hne, withoutZeros]

/-- Groups that all stand before the point. -/
theorem whole?_groups {n : Nat} (negative : Bool) (h : n < mantissaBound) :
    whole? ⟨negative, (Postgres.groups n).length - 1, 0, Postgres.groups n⟩ = Fixed.of? false n 0 := by
  have hcount : ((Postgres.groups n).length - 1 + 1 : Int).toNat = (Postgres.groups n).length := by
    omega
  simp only [whole?, hcount, List.take_length, foldlM_groups h, Option.bind_eq_bind,
    Option.bind_some, Nat.sub_self, Nat.pow_eq, Nat.pow_zero, Nat.mul_one]

theorem fixed?_ofFixed {x : Fixed} (hscale : x.scale = 0)
    (hzero : x.mantissa = 0 → x.negative = false) : (ofFixed x).fixed? = some x := by
  obtain ⟨negative, mantissa, scale, hfits⟩ := x
  cases hscale
  by_cases hm : mantissa = 0
  · cases hm
    cases hzero rfl
    rfl
  · have hcount : ((Postgres.groups mantissa).length - 1 + 1 : Int).toNat =
        (Postgres.groups mantissa).length := by omega
    have hread : Fixed.of? false mantissa 0 = some ⟨false, mantissa, 0, hfits⟩ := dif_pos hfits
    have hscaled : Fixed.withScale ⟨negative, mantissa, 0, hfits⟩ 0 = ⟨negative, mantissa, 0, hfits⟩ := by
      rw [Fixed.withScale, if_neg hm, if_neg (Nat.lt_irrefl 0), Nat.sub_self, Fixed.raised]
    rw [ofFixed_whole rfl hm, fixed?, whole?_groups negative hfits]
    simp only [hcount, List.drop_length, hread, addGroups?, Option.bind_eq_bind, Option.bind_some,
      hscaled]
    rfl

theorem fits_ofFixed {x : Fixed} (hscale : x.scale = 0) : (ofFixed x).Fits := by
  by_cases hm : x.mantissa = 0
  · have hempty : ofFixed x = ⟨false, 0, 0, []⟩ := by simp [ofFixed, hm]
    rw [hempty]
    exact ⟨by decide, by decide, by decide, nofun⟩
  · have hlength : (Postgres.groups x.mantissa).length ≤ 8 :=
      length_groups_le (Nat.lt_trans x.fits (by decide))
    rw [ofFixed_whole hscale hm]
    exact ⟨Nat.lt_of_le_of_lt hlength (by decide), by simp only; omega, Nat.zero_lt_succ _,
      fun g hg => Nat.lt_trans (lt_of_mem_groups hg) (by decide)⟩

/-- A whole number comes back from its bytes. -/
theorem read_whole {x : Fixed} (hscale : x.scale = 0) (hzero : x.mantissa = 0 → x.negative = false) :
    (decode? (ofFixed x).encode).bind fixed? = some x := by
  rw [decode?_encode (fits_ofFixed hscale), Option.bind_some, fixed?_ofFixed hscale hzero]

end Numeric

end Postgres

end Orm
