import Funge.Proofs.Permutation

/-!
Jumps against exact integers. A jump by `n` displaces a position by `n` cells around its row or by
`n` rows around the playfield, backwards if `n` is negative, and on a way without gaps it is the
same as `n` steps. The product of step and distance is a word, and it is exact but for one case:
the least word has no opposite, so on the way left or up the jump by it goes ahead and not back.
-/

namespace Funge

namespace Word

theorem ne_minValue_of_nonneg {n : Int64} (h : 0 ≤ n.toInt) : n ≠ Int64.minValue := by
  rintro rfl
  exact absurd h (by decide)

theorem toInt_add_of_le {m n : Int64} (hm : 0 ≤ m.toInt) (hn : 0 ≤ n.toInt)
    (hmax : m.toInt + n.toInt ≤ Int64.maxValue.toInt) : (m + n).toInt = m.toInt + n.toInt := by
  rw [Int64.toInt_maxValue] at hmax
  exact toInt_add_of_fits (by omega)

/-- Two displacements around a cycle are one by their sum, if the sum is exact. -/
theorem wrap_wrap (i : Nat) {a b : Int64} {len : Nat} (hlen : len ≤ Playfield.lengthLimit)
    (hsum : (a + b).toInt = a.toInt + b.toInt) :
    wrap (wrap i a len) b len = wrap i (a + b) len := by
  have hlimit : Playfield.lengthLimit = 2 ^ 60 := rfl
  rcases Nat.eq_zero_or_pos len with rfl | hpos
  · simp [wrap]
  · have hboth : (wrap (wrap i a len) b len : Int) = wrap i (a + b) len := by
      rw [wrap_wrap_cast i a b hpos (by omega), wrap_cast i (a + b) hpos (by omega), hsum,
        Int.add_assoc]
    exact_mod_cast hboth

end Word

namespace Direction

theorem step_opposite (d : Direction) : d.opposite.step = -d.step := by
  cases d <;> rfl

theorem step_mul_minValue (d : Direction) : d.step * Int64.minValue = Int64.minValue := by
  cases d <;> decide

/-- The signed distance of a jump is exact, but for the least word on the way left or up. -/
theorem toInt_step_mul (d : Direction) {n : Int64} (h : d.sense = 1 ∨ n ≠ Int64.minValue) :
    (d.step * n).toInt = d.sense * n.toInt := by
  have hback : n ≠ Int64.minValue → (-1 * n).toInt = -1 * n.toInt := by
    intro hn
    have hlow := Int64.le_toInt n
    have hhigh := Int64.toInt_lt n
    have hleast : n.toInt ≠ -2 ^ 63 := fun h => hn (Int64.toInt_inj.mp h)
    rw [Int64.neg_mul, Int64.one_mul, Int64.toInt_neg, Int.bmod_eq_of_le (by omega) (by omega),
      Int.neg_one_mul]
  cases d with
  | right | down => rw [step, sense, Int64.one_mul, Int.one_mul]
  | left | up => exact hback (h.resolve_left (by decide))

/-- Displacements that differ by whole rounds lead to the same place of a cycle. -/
theorem residue_eq_iff (d : Direction) (i : Int) {len : Nat} (hlen : 0 < len) (m n : Int) :
    ((i + d.sense * m) % len).toNat = ((i + d.sense * n) % len).toNat ↔ (len : Int) ∣ m - n := by
  have hm := Int.emod_nonneg (i + d.sense * m) (show (len : Int) ≠ 0 by omega)
  have hn := Int.emod_nonneg (i + d.sense * n) (show (len : Int) ≠ 0 by omega)
  have hdiff : i + d.sense * m - (i + d.sense * n) = d.sense * (m - n) := by
    rw [Int.mul_sub]
    omega
  calc ((i + d.sense * m) % len).toNat = ((i + d.sense * n) % len).toNat
      ↔ (i + d.sense * m) % len = (i + d.sense * n) % len := by omega
    _ ↔ (len : Int) ∣ d.sense * (m - n) := by
      rw [Int.emod_eq_emod_iff_emod_sub_eq_zero, ← Int.dvd_iff_emod_eq_zero, hdiff]
    _ ↔ (len : Int) ∣ m - n := by
      cases d with
      | right | down => rw [sense, Int.one_mul]
      | left | up => rw [sense, Int.neg_one_mul, Int.dvd_neg]

end Direction

namespace Playfield

variable {f : Playfield} {d : Direction} {p : Position} {n : Int64}

/-- The place `n` cells from `p` in the direction `d`, in exact integers. -/
def displaced (f : Playfield) (p : Position) (d : Direction) (n : Int) : Position :=
  match d with
  | .right => ⟨((p.x + n) % f.rowLength p.y).toNat, p.y⟩
  | .left => ⟨((p.x - n) % f.rowLength p.y).toNat, p.y⟩
  | .down => ⟨p.x, ((p.y + n) % f.rowCount).toNat⟩
  | .up => ⟨p.x, ((p.y - n) % f.rowCount).toNat⟩

theorem displaced_horizontal (hd : d.isHorizontal = true) (f : Playfield) (p : Position) (n : Int) :
    f.displaced p d n = ⟨((p.x + d.sense * n) % f.rowLength p.y).toNat, p.y⟩ := by
  cases d with
  | right => rw [displaced, Direction.sense, Int.one_mul]
  | left => rw [displaced, Direction.sense, Int.neg_one_mul, Int.sub_eq_add_neg]
  | up | down => cases hd

theorem displaced_vertical (hd : d.isHorizontal = false) (f : Playfield) (p : Position) (n : Int) :
    f.displaced p d n = ⟨p.x, ((p.y + d.sense * n) % f.rowCount).toNat⟩ := by
  cases d with
  | down => rw [displaced, Direction.sense, Int.one_mul]
  | up => rw [displaced, Direction.sense, Int.neg_one_mul, Int.sub_eq_add_neg]
  | left | right => cases hd

theorem displaced_eq_iff (hp : f.Stored p) (d : Direction) (m n : Int) :
    f.displaced p d m = f.displaced p d n ↔ (f.extent p d : Int) ∣ m - n := by
  have hpos := (hp.movable d).extent_pos
  unfold extent at hpos ⊢
  cases hd : d.isHorizontal with
  | true =>
    rw [displaced_horizontal hd, displaced_horizontal hd]
    simp only [hd, ↓reduceIte] at hpos ⊢
    rw [← d.residue_eq_iff p.x hpos m n]
    simp
  | false =>
    rw [displaced_vertical hd, displaced_vertical hd]
    simp only [hd, Bool.false_eq_true, ↓reduceIte] at hpos ⊢
    rw [← d.residue_eq_iff p.y hpos m n]
    simp

/-! ## Jumps -/

/-- A jump displaces by the signed distance that its direction and its operand give. -/
theorem jump_of_stored (hf : f.Bounded) (hp : f.Stored p) (d : Direction) (n : Int64) :
    f.jump p d n = f.displaced p d (d.sense * (d.step * n).toInt) := by
  have hlimit : lengthLimit = 2 ^ 60 := rfl
  have hx : p.x < f.rowLength p.y := hp
  have hy := lt_rowCount_of_lt_rowLength hx
  have hlen := hf.cells p.y
  have hrows := hf.rows
  have hsense : d.sense * (d.sense * (d.step * n).toInt) = (d.step * n).toInt := by
    rw [← Int.mul_assoc, d.sense_mul_sense, Int.one_mul]
  rw [jump]
  cases hd : d.isHorizontal with
  | true =>
    rw [if_pos rfl, displaced_horizontal hd, hsense,
      ← Word.wrap_cast_of_lt _ (by omega) (by omega) (by omega), Int.toNat_natCast]
  | false =>
    rw [if_neg (by decide), displaced_vertical hd, hsense,
      ← Word.wrap_cast_of_lt _ (by omega) (by omega) (by omega), Int.toNat_natCast]

theorem jump_eq_displaced (hf : f.Bounded) (hp : f.Stored p)
    (h : d.sense = 1 ∨ n ≠ Int64.minValue) : f.jump p d n = f.displaced p d n.toInt := by
  rw [jump_of_stored hf hp, d.toInt_step_mul h, ← Int.mul_assoc, d.sense_mul_sense, Int.one_mul]

theorem jump_minValue (hf : f.Bounded) (hp : f.Stored p) (h : d.sense = -1) :
    f.jump p d Int64.minValue = f.displaced p d (-Int64.minValue.toInt) := by
  rw [jump_of_stored hf hp, d.step_mul_minValue, h, Int.neg_one_mul]

/-- **What a jump displaces by.** A jump by `n` displaces by exactly `n`, unless it is the jump left
or up by the least word on a cycle whose length does not divide `2 ^ 64`. This one goes as far ahead
as it should go back. In words, a jump is always the opposite jump by the negative. -/
theorem jump_displaces_iff (f : Playfield) (hf : f.Bounded) (p : Position) (hp : f.Stored p)
    (d : Direction) (n : Int64) :
    (f.jump p d n = f.displaced p d n.toInt ↔
      d.sense = 1 ∨ n ≠ Int64.minValue ∨ f.extent p d ∣ 0x10000000000000000) ∧
    (d.sense = -1 → f.jump p d Int64.minValue = f.displaced p d (-Int64.minValue.toInt)) ∧
    f.jump p d n = f.jump p d.opposite (-n) := by
  refine ⟨?_, jump_minValue hf hp, ?_⟩
  · by_cases hexact : d.sense = 1 ∨ n ≠ Int64.minValue
    · exact iff_of_true (jump_eq_displaced hf hp hexact) (hexact.imp_right Or.inl)
    · obtain ⟨hsense, hleast⟩ := not_or.mp hexact
      obtain rfl := not_not.mp hleast
      have hback : d.sense = -1 := by
        cases d with
        | right | down => exact absurd rfl hsense
        | left | up => rfl
      have hround : -Int64.minValue.toInt - Int64.minValue.toInt =
          ((0x10000000000000000 : Nat) : Int) := by decide
      rw [jump_minValue hf hp hback, displaced_eq_iff hp, hround, Int.natCast_dvd_natCast]
      simp [hsense]
  · rw [jump, jump, d.step_opposite, Int64.neg_mul_neg, d.isHorizontal_opposite]

/-- A row of three cells. -/
def threeCells : Playfield := ⟨[[.char 'a', .char 'b', .char 'c']]⟩

/-- To the left by the least word the jump should lead `2 ^ 63` cells to the right, to the last of
the three cells, but it leads to the middle one. -/
theorem jump_left_minValue_astray :
    threeCells.Bounded ∧ threeCells.Stored .origin ∧
      threeCells.jump .origin .left Int64.minValue = ⟨1, 0⟩ ∧
      threeCells.displaced .origin .left Int64.minValue.toInt = ⟨2, 0⟩ := by
  decide +kernel

theorem jump_displaces_iff_threeCells :
    threeCells.Bounded ∧ threeCells.Stored .origin ∧
      threeCells.jump .origin .left (-4) = threeCells.displaced .origin .left (-4) ∧
      threeCells.jump .origin .right Int64.minValue =
        threeCells.displaced .origin .right Int64.minValue.toInt ∧
      threeCells.jump .origin .left Int64.minValue =
        threeCells.displaced .origin .left 0x8000000000000000 ∧
      threeCells.jump .origin .left (-4) = threeCells.jump .origin .right 4 := by
  have hbounded : threeCells.Bounded := by decide
  have hstored : threeCells.Stored .origin := by decide
  have hjump := jump_displaces_iff threeCells hbounded .origin hstored
  refine ⟨hbounded, hstored, ?_, ?_, (hjump .left 0).2.1 rfl, (hjump .left (-4)).2.2⟩
  · exact (hjump .left (-4)).1.mpr (Or.inr (Or.inl (by decide)))
  · exact (hjump .right Int64.minValue).1.mpr (Or.inl rfl)

/-! ## Jumps and steps -/

theorem reaches_of_rows {x : Nat} (hrows : ∀ r ∈ f.rows, x < r.length) {y : Nat}
    (hy : y < f.rowCount) : x < f.rowLength y := by
  rw [rowLength, row, List.getD_eq_getElem?_getD, List.getElem?_eq_getElem hy]
  exact hrows _ (List.getElem_mem hy)

/-- Where no row is too short, the vertical steps lead from row to row. -/
theorem ahead_iterate_vertical (hf : f.Bounded) (hd : d.isHorizontal = false) {x y : Nat}
    (hrows : ∀ r ∈ f.rows, x < r.length) (hy : y < f.rowCount) (k : Nat) :
    (f.ahead d)^[k] ⟨x, y⟩ = ⟨x, (f.nextRow d.step)^[k] y⟩ := by
  induction k with
  | zero => rfl
  | succ k ih =>
    have hlt := (nextRow_iterate f hf.rows d hy k).2
    have hnext : x < f.rowLength (f.nextRow d.step ((f.nextRow d.step)^[k] y)) :=
      reaches_of_rows hrows (nextRow_lt (by omega) hf.rows _ _)
    rw [Function.iterate_succ_apply', ih, Function.iterate_succ_apply']
    exact ahead_vertical hd (by omega) (fun j hj => absurd hj (Nat.not_lt_zero j)) hnext

/-- On a way without gaps, steps displace by their number. -/
theorem ahead_iterate_eq_displaced (hf : f.Bounded) (hp : f.Stored p)
    (hway : d.isHorizontal = true ∨ ∀ r ∈ f.rows, p.x < r.length) (k : Nat) :
    (f.ahead d)^[k] p = f.displaced p d k := by
  cases hd : d.isHorizontal with
  | true =>
    have hval := (Word.wrap_iterate d hp (hf.cells p.y) k).1
    rw [d.toInt_step] at hval
    rw [ahead_iterate_horizontal hd, displaced_horizontal hd, ← hval, Int.toNat_natCast]
  | false =>
    have hrows := hway.resolve_left (by simp [hd])
    have hy := lt_rowCount_of_lt_rowLength hp
    have hval := (nextRow_iterate f hf.rows d hy k).1
    rw [d.toInt_step] at hval
    rw [displaced_vertical hd, ← hval, Int.toNat_natCast]
    exact ahead_iterate_vertical hf hd hrows hy k

/-- Jumps the same way add up. Nothing is asked of the places on the way, since a jump looks at no
row but that where it begins. -/
theorem jump_jump (hf : f.Bounded) (p : Position) (d : Direction) {m n : Int64}
    (hm : 0 ≤ m.toInt) (hn : 0 ≤ n.toInt) (hmax : m.toInt + n.toInt ≤ Int64.maxValue.toInt) :
    f.jump (f.jump p d m) d n = f.jump p d (m + n) := by
  have hadd := Word.toInt_add_of_le hm hn hmax
  have hsum : (d.step * m + d.step * n).toInt = (d.step * m).toInt + (d.step * n).toInt := by
    rw [← Int64.mul_add, d.toInt_step_mul (Or.inr (Word.ne_minValue_of_nonneg (by omega))),
      d.toInt_step_mul (Or.inr (Word.ne_minValue_of_nonneg hm)),
      d.toInt_step_mul (Or.inr (Word.ne_minValue_of_nonneg hn)), hadd, Int.mul_add]
  cases hd : d.isHorizontal with
  | true => simp only [jump, hd, ↓reduceIte, Int64.mul_add, Word.wrap_wrap _ (hf.cells p.y) hsum]
  | false =>
    simp only [jump, hd, Bool.false_eq_true, ↓reduceIte, Int64.mul_add,
      Word.wrap_wrap _ hf.rows hsum]

/-- **A jump is repeated stepping.** From a stored cell, a jump by `n` is `n` steps, if the way is a
row or no row is too short for the column. Jumps add up from any place of any playfield, also over
rows that are too short. -/
theorem jump_repeats_steps (f : Playfield) (hf : f.Bounded) (d : Direction) :
    (∀ p, f.Stored p → (d.isHorizontal = true ∨ ∀ r ∈ f.rows, p.x < r.length) →
      ∀ n : Int64, 0 ≤ n → f.advances? d n.toInt.toNat p = some (f.jump p d n)) ∧
    ∀ (p : Position) (m n : Int64), 0 ≤ m → 0 ≤ n → m.toInt + n.toInt ≤ Int64.maxValue.toInt →
      f.jump (f.jump p d m) d n = f.jump p d (m + n) := by
  have hnonneg : ∀ {n : Int64}, 0 ≤ n → 0 ≤ n.toInt := Int64.le_iff_toInt_le.mp
  constructor
  · intro p hp hway n hn
    have hexact := jump_eq_displaced (d := d) hf hp
      (Or.inr (Word.ne_minValue_of_nonneg (hnonneg hn)))
    rw [advances?_of_stored hf hp, ahead_iterate_eq_displaced hf hp hway,
      Int.toNat_of_nonneg (hnonneg hn), hexact]
  · intro p m n hm hn hmax
    exact jump_jump hf p d (hnonneg hm) (hnonneg hn) hmax

/-- Three rows, all of which have a first cell. -/
def pillar : Playfield := ⟨[[.char 'a'], [.char 'b', .char 'c'], [.char 'd']]⟩

/-- Up by the greatest word, one step at a time, and down over two rows that are too short. -/
theorem jump_repeats_steps_pillar :
    pillar.Bounded ∧ pillar.Stored .origin ∧ (∀ r ∈ pillar.rows, 0 < r.length) ∧
      pillar.advances? .up 0x7fffffffffffffff .origin = some ⟨0, 2⟩ ∧
      terrace.Bounded ∧
      terrace.jump (terrace.jump ⟨1, 0⟩ .down 1) .down 2 = terrace.jump ⟨1, 0⟩ .down 3 := by
  have hpillar : pillar.Bounded := by decide
  have hstored : pillar.Stored .origin := by decide
  have hrows : ∀ r ∈ pillar.rows, 0 < r.length := by decide
  have hterrace : terrace.Bounded := by decide
  have hjump : pillar.jump .origin .up Int64.maxValue = ⟨0, 2⟩ := by decide +kernel
  refine ⟨hpillar, hstored, hrows, ?_, hterrace, ?_⟩
  · rw [← hjump]
    exact (jump_repeats_steps pillar hpillar .up).1 .origin hstored (Or.inr hrows) Int64.maxValue
      (by decide)
  · exact (jump_repeats_steps terrace hterrace .down).2 ⟨1, 0⟩ 1 2 (by decide) (by decide)
      (by decide)

end Playfield

end Funge
