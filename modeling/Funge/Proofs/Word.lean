import Funge.Word

/-!
Word arithmetic against exact integers: `residue` is the Euclidean remainder, and
`wrap` is addition modulo the length of the cycle, as long as the cycle has at most
`2 ^ 62` places. `floorDiv` and `floorMod` are the floor quotient and its remainder.
-/

namespace Funge.Word

/-- A sum within the range of words is exact. -/
theorem toInt_add_of_fits {a b : Int64}
    (h : -0x8000000000000000 ≤ a.toInt + b.toInt ∧ a.toInt + b.toInt < 0x8000000000000000) :
    (a + b).toInt = a.toInt + b.toInt := by
  rw [Int64.toInt_add, Int.bmod_eq_of_le (by omega) (by omega)]

/-- Adding the modulus to a negative remainder cannot overflow. -/
theorem toInt_residue (a : Int64) {n : Int64} (hn : 0 < n.toInt) :
    (residue a n).toInt = a.toInt % n.toInt := by
  have hlt := Int64.toInt_lt n
  have hr : (a % n).toInt = a.toInt.tmod n.toInt := Int64.toInt_mod a n
  have hlow := Int.lt_tmod_of_pos a.toInt hn
  have hhigh := Int.tmod_lt_of_pos a.toInt hn
  have hmod : a.toInt % n.toInt = a.toInt.tmod n.toInt % n.toInt := by
    have h := Int.add_mul_emod_self_left (a.toInt.tmod n.toInt) n.toInt (a.toInt.tdiv n.toInt)
    rwa [Int.tmod_add_mul_tdiv] at h
  rw [hmod]
  unfold residue
  by_cases hneg : a % n < 0
  · have hneg' : a.toInt.tmod n.toInt < 0 := by
      rw [Int64.lt_iff_toInt_lt, hr] at hneg
      simpa using hneg
    rw [if_pos hneg, toInt_add_of_fits (by omega), hr, Int.emod_eq_add_self_emod,
      Int.emod_eq_of_lt (by omega) (by omega)]
  · have hpos : 0 ≤ a.toInt.tmod n.toInt := by
      rw [Int64.lt_iff_toInt_lt, hr] at hneg
      simpa using hneg
    rw [if_neg hneg, hr, Int.emod_eq_of_lt hpos hhigh]

theorem wrap_of_pos (i : Nat) (delta : Int64) {len : Nat} (hpos : 0 < len) :
    wrap i delta len =
      (residue (residue (Int64.ofNat i) (Int64.ofNat len) + delta % Int64.ofNat len)
        (Int64.ofNat len)).toInt.toNat := by
  rw [wrap, if_neg (by omega)]

theorem toInt_ofNat_of_le {len : Nat} (hlen : len ≤ 0x4000000000000000) :
    (Int64.ofNat len).toInt = len := Int64.toInt_ofNat_of_lt (by omega)

/-- The two summands inside `wrap`. -/
theorem toInt_summands (i : Nat) (delta : Int64) {len : Nat} (hpos : 0 < len)
    (hlen : len ≤ 0x4000000000000000) :
    (residue (Int64.ofNat i) (Int64.ofNat len)).toInt = (Int64.ofNat i).toInt % len ∧
      (delta % Int64.ofNat len).toInt = delta.toInt.tmod len := by
  have hn := toInt_ofNat_of_le hlen
  constructor
  · rw [toInt_residue _ (by omega), hn]
  · rw [Int64.toInt_mod, hn]

/-- The sum inside `wrap` stays within two lengths of zero. -/
theorem sum_fits (i : Nat) (delta : Int64) {len : Nat} (hpos : 0 < len)
    (hlen : len ≤ 0x4000000000000000) :
    -0x8000000000000000 ≤ (residue (Int64.ofNat i) (Int64.ofNat len)).toInt +
        (delta % Int64.ofNat len).toInt ∧
      (residue (Int64.ofNat i) (Int64.ofNat len)).toInt + (delta % Int64.ofNat len).toInt <
        0x8000000000000000 := by
  obtain ⟨hbase, hdelta⟩ := toInt_summands i delta hpos hlen
  have hlow := Int.emod_nonneg (Int64.ofNat i).toInt (show (len : Int) ≠ 0 by omega)
  have hhigh := Int.emod_lt_of_pos (Int64.ofNat i).toInt (show 0 < (len : Int) by omega)
  have hlow' := Int.lt_tmod_of_pos delta.toInt (show 0 < (len : Int) by omega)
  have hhigh' := Int.tmod_lt_of_pos delta.toInt (show 0 < (len : Int) by omega)
  omega

theorem wrap_cast (i : Nat) (delta : Int64) {len : Nat} (hpos : 0 < len)
    (hlen : len ≤ 0x4000000000000000) :
    (wrap i delta len : Int) = ((Int64.ofNat i).toInt + delta.toInt) % len := by
  have hn := toInt_ofNat_of_le hlen
  obtain ⟨hbase, hdelta⟩ := toInt_summands i delta hpos hlen
  have hsum : (residue (Int64.ofNat i) (Int64.ofNat len) + delta % Int64.ofNat len).toInt =
      (Int64.ofNat i).toInt % len + delta.toInt.tmod len := by
    rw [toInt_add_of_fits (sum_fits i delta hpos hlen), hbase, hdelta]
  have hword : (wrap i delta len : Int) =
      ((Int64.ofNat i).toInt % len + delta.toInt.tmod len) % len := by
    rw [wrap_of_pos i delta hpos, toInt_residue _ (by omega), hsum, hn,
      Int.toNat_of_nonneg (Int.emod_nonneg _ (by omega))]
  rw [hword, Int.emod_add_emod, Int.tmod_def, ← Int.add_sub_assoc, Int.sub_mul_emod_self_left]

/-- On an index that fits a signed word the sum is that of the exact integers. -/
theorem wrap_cast_of_lt {i : Nat} (delta : Int64) {len : Nat} (hi : i < 0x8000000000000000)
    (hpos : 0 < len) (hlen : len ≤ 0x4000000000000000) :
    (wrap i delta len : Int) = (i + delta.toInt) % len := by
  rw [wrap_cast i delta hpos hlen, Int64.toInt_ofNat_of_lt hi]

theorem wrap_lt (i : Nat) (delta : Int64) {len : Nat} (hpos : 0 < len)
    (hlen : len ≤ 0x4000000000000000) :
    wrap i delta len < len := by
  have h := wrap_cast i delta hpos hlen
  have := Int.emod_lt_of_pos ((Int64.ofNat i).toInt + delta.toInt) (show 0 < (len : Int) by omega)
  omega

/-- Two displacements around a cycle add up as exact integers. -/
theorem wrap_wrap_cast (i : Nat) (a b : Int64) {len : Nat} (hpos : 0 < len)
    (hlen : len ≤ 0x4000000000000000) :
    (wrap (wrap i a len) b len : Int) = ((Int64.ofNat i).toInt + a.toInt + b.toInt) % len := by
  have hlt := wrap_lt i a hpos hlen
  rw [wrap_cast_of_lt b (by omega) hpos hlen, wrap_cast i a hpos hlen, Int.emod_add_emod]

/-- A truncated remainder is brought to the sign of its divisor by adding the divisor. -/
theorem fmod_eq_tmod (b a : Int) :
    b.fmod a =
      if b.tmod a ≠ 0 ∧ (b.tmod a < 0 ↔ ¬ a < 0) then b.tmod a + a else b.tmod a := by
  have hdvd : a ∣ b ↔ b.tmod a = 0 := Int.dvd_iff_tmod_eq_zero
  rw [Int.fmod_eq_tmod]
  by_cases hzero : b.tmod a = 0
  · rw [if_pos (hdvd.mpr hzero), if_neg (by omega)]
    omega
  · have hsign : b.tmod a < 0 ↔ b < 0 := by
      rcases Int.lt_or_le b 0 with hb | hb
      · have := Int.tmod_nonneg a (show 0 ≤ -b by omega)
        rw [Int.neg_tmod] at this
        omega
      · have := Int.tmod_nonneg a hb
        omega
    rw [if_neg (fun h => hzero (hdvd.mp h))]
    split <;> split <;> split <;> omega

theorem fdiv_eq_tdiv (b : Int) {a : Int} (ha : a ≠ 0) :
    b.fdiv a =
      if b.tmod a ≠ 0 ∧ (b.tmod a < 0 ↔ ¬ a < 0) then b.tdiv a - 1 else b.tdiv a := by
  have hf := Int.mul_fdiv_add_fmod b a
  have ht := Int.mul_tdiv_add_tmod b a
  apply Int.eq_of_mul_eq_mul_left ha
  rw [fmod_eq_tmod b a] at hf
  split
  · next h =>
    rw [if_pos h] at hf
    rw [Int.mul_sub]
    omega
  · next h =>
    rw [if_neg h] at hf
    omega

theorem toInt_ne_zero {a : Int64} (h : a ≠ 0) : a.toInt ≠ 0 :=
  fun h0 => h (Int64.toInt_inj.mp h0)

/-- The test of both floor operations, on exact integers. -/
theorem adjusts_iff (b a : Int64) :
    (b % a ≠ 0 ∧ (b % a < 0 ↔ ¬ a < 0)) ↔
      b.toInt.tmod a.toInt ≠ 0 ∧ (b.toInt.tmod a.toInt < 0 ↔ ¬ a.toInt < 0) := by
  rw [Int64.lt_iff_toInt_lt, Int64.lt_iff_toInt_lt, ← Int64.toInt_mod, Ne, Ne, ← Int64.toInt_inj,
    Int64.toInt_zero]

theorem floorMod_eq (b a : Int64) :
    floorMod b a = .ofInt (b.toInt.fmod a.toInt) := by
  rw [fmod_eq_tmod, ← Int64.toInt_mod]
  simp only [floorMod, adjusts_iff, ← Int64.toInt_mod]
  split
  · rw [Int64.ofInt_add, Int64.ofInt_toInt, Int64.ofInt_toInt]
  · rw [Int64.ofInt_toInt]

theorem floorDiv_eq (b : Int64) {a : Int64} (ha : a ≠ 0) :
    floorDiv b a = .ofInt (b.toInt.fdiv a.toInt) := by
  have hquotient : .ofInt (b.toInt.tdiv a.toInt) = b / a := by
    apply Int64.toInt_inj.mp
    rw [Int64.toInt_div, Int64.toInt_ofInt]
  rw [fdiv_eq_tdiv _ (toInt_ne_zero ha)]
  simp only [floorDiv, adjusts_iff]
  split
  · rw [Int64.ofInt_sub, hquotient]
    rfl
  · exact hquotient.symm

end Funge.Word
