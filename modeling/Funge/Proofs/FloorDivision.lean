import Mathlib.Data.Rat.Floor
import Funge.Proofs.Checked

/-!
Division of words. An integer is divided by another with a remainder that lies between zero and the
divisor in one way only, and the quotient is then the true one rounded down. Words are divided like
that, with one quotient that is no word and that wraps around: the least word by minus one.
-/

namespace Funge.Word

/-- Dividing `b` by `a` gives `q` and leaves `r`, which is smaller than the divisor and lies on the
same side of zero. -/
structure FloorDivides (b a q r : Int) : Prop where
  exact : b = a * q + r
  smaller : |r| < |a|
  side : r = 0 ∨ (r < 0 ↔ a < 0)

/-- The two conditions on a remainder, for a divisor above zero and for one below. -/
theorem remainder_iff (a r : Int) :
    (|r| < |a| ∧ (r = 0 ∨ (r < 0 ↔ a < 0))) ↔ (0 ≤ r ∧ r < a) ∨ (a < r ∧ r ≤ 0) := by
  rw [Int.abs_eq_natAbs, Int.abs_eq_natAbs]
  omega

theorem floorDivides_iff (b : Int) {a : Int} (ha : a ≠ 0) (q r : Int) :
    FloorDivides b a q r ↔ b.fdiv a = q ∧ b.fmod a = r := by
  have hparts : FloorDivides b a q r ↔ r + a * q = b ∧ ((0 ≤ r ∧ r < a) ∨ (a < r ∧ r ≤ 0)) := by
    rw [← remainder_iff, Int.add_comm r, eq_comm]
    exact ⟨fun h => ⟨h.exact, h.smaller, h.side⟩, fun h => ⟨h.1, h.2.1, h.2.2⟩⟩
  rw [hparts]
  rcases Int.lt_or_gt_of_ne ha with hneg | hpos
  · rw [Int.fdiv_fmod_unique' hneg]
    exact and_congr_right fun _ => or_iff_right (by omega)
  · rw [Int.fdiv_fmod_unique hpos]
    exact and_congr_right fun _ => or_iff_left (by omega)

/-- What is left over is a part of the divisor, so the quotient is the greatest integer below the
true one. -/
theorem FloorDivides.floor {b a q r : Int} (h : FloorDivides b a q r) : ⌊(b : ℚ) / a⌋ = q := by
  have ha : a ≠ 0 := by
    rintro rfl
    exact (abs_nonneg r).not_gt (by simpa using h.smaller)
  have hquotient : (b : ℚ) / a = q + r / a := by
    have hb : (b : ℚ) = a * q + r := by exact_mod_cast h.exact
    field_simp
    exact hb
  have hpart : (0 : ℚ) ≤ r / a ∧ (r : ℚ) / a < 1 := by
    rcases (remainder_iff a r).mp ⟨h.smaller, h.side⟩ with ⟨h0, hlt⟩ | ⟨hlt, h0⟩
    · have hpos : (0 : ℚ) < a := by exact_mod_cast h0.trans_lt hlt
      exact ⟨div_nonneg (by exact_mod_cast h0) hpos.le,
        (div_lt_one hpos).mpr (by exact_mod_cast hlt)⟩
    · have hneg : (a : ℚ) < 0 := by exact_mod_cast hlt.trans_le h0
      exact ⟨div_nonneg_of_nonpos (by exact_mod_cast h0) hneg.le,
        (div_lt_one_of_neg hneg).mpr (by exact_mod_cast hlt)⟩
  rw [Int.floor_eq_iff, hquotient]
  constructor
  · linarith [hpart.1]
  · linarith [hpart.2]

/-- A remainder is smaller than its divisor, so it is a word. -/
theorem toInt_floorMod (b : Int64) {a : Int64} (ha : a ≠ 0) :
    (floorMod b a).toInt = b.toInt.fmod a.toInt := by
  have h := (floorDivides_iff b.toInt (toInt_ne_zero ha) _ _).mpr ⟨rfl, rfl⟩
  have hbounds := (remainder_iff _ _).mp ⟨h.smaller, h.side⟩
  have hlow := Int64.le_toInt a
  have hhigh := Int64.toInt_lt a
  rw [floorMod_eq, Int64.toInt_ofInt_of_le (by omega) (by omega)]

/-- A quotient is at most as large as the dividend. The only number of that size that is no word
is the opposite of the least word. -/
theorem toInt_floorDiv (b : Int64) {a : Int64} (ha : a ≠ 0) :
    (floorDiv b a).toInt =
      if b = Int64.minValue ∧ a = -1 then Int64.minValue.toInt else b.toInt.fdiv a.toInt := by
  split
  · next h =>
    rw [h.1, h.2]
    decide
  · next h =>
    have hdivides := (floorDivides_iff b.toInt (toInt_ne_zero ha) _ _).mpr ⟨rfl, rfl⟩
    have hremainder := (remainder_iff _ _).mp ⟨hdivides.smaller, hdivides.side⟩
    have hsize := Int.natAbs_fdiv_le_natAbs b.toInt a.toInt
    have hlow := Int64.le_toInt b
    have hhigh := Int64.toInt_lt b
    -- with this quotient the dividend would be the least word and the divisor minus one
    have hfits : b.toInt.fdiv a.toInt ≠ 0x8000000000000000 := by
      intro hq
      apply h
      have hexact := hdivides.exact
      rw [hq] at hexact
      rw [← Int64.toInt_inj, ← Int64.toInt_inj, Int64.toInt_minValue,
        show (-1 : Int64).toInt = -1 from rfl]
      omega
    rw [floorDiv_eq b ha, Int64.toInt_ofInt_of_le (by omega) (by omega)]

/-- Words wrap around, so the law of division holds also where the quotient does not fit. -/
theorem mul_floorDiv_add_floorMod (b : Int64) {a : Int64} (ha : a ≠ 0) :
    a * floorDiv b a + floorMod b a = b := by
  calc a * floorDiv b a + floorMod b a
      = .ofInt (a.toInt * b.toInt.fdiv a.toInt + b.toInt.fmod a.toInt) := by
        rw [floorDiv_eq b ha, floorMod_eq, Int64.ofInt_add, Int64.ofInt_mul, Int64.ofInt_toInt]
    _ = b := by rw [Int.mul_fdiv_add_fmod, Int64.ofInt_toInt]

/-- **Division of words is exact.** For a divisor other than zero there is one quotient `q` with one
remainder `r`, and the quotient is the true one rounded down. The remainder of words is `r`, and its
last sum never overflows. The quotient of words is `q`, but that of the least word by minus one is
the least word. In words the dividend is always the sum of the remainder and the divisor times the
quotient. -/
theorem floor_division_exact (b : Int64) {a : Int64} (ha : a ≠ 0) :
    ∃ q r : Int,
      (∀ q' r', FloorDivides b.toInt a.toInt q' r' ↔ q' = q ∧ r' = r) ∧
      ⌊(b.toInt : ℚ) / a.toInt⌋ = q ∧
      (floorMod b a).toInt = r ∧ checkedFloorMod b a = some (floorMod b a) ∧
      (floorDiv b a).toInt =
        (if b = Int64.minValue ∧ a = -1 then Int64.minValue.toInt else q) ∧
      a * floorDiv b a + floorMod b a = b := by
  have hiff := floorDivides_iff b.toInt (toInt_ne_zero ha)
  refine ⟨b.toInt.fdiv a.toInt, b.toInt.fmod a.toInt, ?_, ?_, toInt_floorMod b ha,
    checkedFloorMod_eq b ha, toInt_floorDiv b ha, mul_floorDiv_add_floorMod b ha⟩
  · intro q r
    rw [hiff, eq_comm, eq_comm (a := r)]
  · exact ((hiff _ _).mpr ⟨rfl, rfl⟩).floor

/-- The least word divided by minus one, whose quotient is no word. -/
theorem floor_division_exact_minValue :
    (-1 : Int64) ≠ 0 ∧ ∃ q r : Int,
      (∀ q' r', FloorDivides Int64.minValue.toInt (-1 : Int64).toInt q' r' ↔ q' = q ∧ r' = r) ∧
      ⌊(Int64.minValue.toInt : ℚ) / (-1 : Int64).toInt⌋ = q ∧
      (floorMod Int64.minValue (-1)).toInt = r ∧
      checkedFloorMod Int64.minValue (-1) = some (floorMod Int64.minValue (-1)) ∧
      (floorDiv Int64.minValue (-1)).toInt =
        (if Int64.minValue = Int64.minValue ∧ (-1 : Int64) = -1 then Int64.minValue.toInt else q) ∧
      (-1 : Int64) * floorDiv Int64.minValue (-1) + floorMod Int64.minValue (-1) =
        Int64.minValue :=
  ⟨by decide, floor_division_exact Int64.minValue (by decide)⟩

end Funge.Word
