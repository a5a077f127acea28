import Funge.Proofs.Circuit

/-!
Vertical steps. The search for a row is a loop without a bound of its own. It ends exactly if some
row reaches the column, and then in the first such row around the cycle: it may run past the last
row, come back to the row where it began, or begin outside of all rows.
-/

namespace Funge

namespace Playfield

variable {f : Playfield} {d : Direction} {x y z k : Nat} {step : Int64}

/-! ## The loop -/

/-- The search for a row that reaches column `x`, begun in row `y`, goes on `k` times and ends in
row `z`. -/
inductive SeeksTo (f : Playfield) (x : Nat) (step : Int64) : Nat → Nat → Nat → Prop
  | found {y : Nat} : x < f.rowLength y → SeeksTo f x step y 0 y
  | further {y z k : Nat} : f.rowLength y ≤ x → SeeksTo f x step (f.nextRow step y) k z →
      SeeksTo f x step y (k + 1) z

theorem seeksTo_iff : f.SeeksTo x step y k z ↔
    z = (f.nextRow step)^[k] y ∧ x < f.rowLength z ∧
      ∀ j < k, f.rowLength ((f.nextRow step)^[j] y) ≤ x := by
  constructor
  · intro h
    induction h with
    | found hreach => exact ⟨rfl, hreach, by simp⟩
    | further hshort _ ih =>
      obtain ⟨hz, hreach, hbefore⟩ := ih
      refine ⟨hz, hreach, ?_⟩
      intro j hj
      cases j with
      | zero => exact hshort
      | succ j => exact hbefore j (by omega)
  · rintro ⟨rfl, hreach, hshort⟩
    induction k generalizing y with
    | zero => exact .found hreach
    | succ k ih =>
      exact .further (hshort 0 (by omega)) (ih hreach fun j hj => hshort (j + 1) (by omega))

theorem exists_seeksTo_of_seekRow {fuel : Nat} (h : f.seekRow x step fuel y = some z) :
    ∃ k, f.SeeksTo x step y k z := by
  induction fuel generalizing y with
  | zero => cases h
  | succ fuel ih =>
    rw [seekRow] at h
    split at h
    · next hreach =>
      obtain rfl := Option.some.inj h
      exact ⟨0, .found hreach⟩
    · next hshort =>
      obtain ⟨k, hk⟩ := ih h
      exact ⟨k + 1, .further (Nat.le_of_not_lt hshort) hk⟩

/-- A search that ends has not looked at a row twice. -/
theorem SeeksTo.lt_rowCount (h : f.SeeksTo x d.step y k z) (hrows : f.rowCount ≤ lengthLimit)
    (hy : y < f.rowCount) : k < f.rowCount := by
  obtain ⟨rfl, hreach, hshort⟩ := seeksTo_iff.mp h
  have hz := (nextRow_iterate f hrows d hy k).2
  obtain ⟨j, hj, hsame⟩ := exists_nextRow_iterate_eq f hrows d hy hz
  apply Nat.lt_of_not_le
  intro hk
  have hjshort := hshort j (by omega)
  rw [hsame] at hjshort
  omega

/-- As many rows as there are suffice for the search, if it ends at all. -/
theorem seekRow_eq_some_iff (hrows : f.rowCount ≤ lengthLimit) (hy : y < f.rowCount) :
    f.seekRow x d.step f.rowCount y = some z ↔ ∃ k, f.SeeksTo x d.step y k z := by
  constructor
  · exact exists_seeksTo_of_seekRow
  · rintro ⟨k, h⟩
    have hk := h.lt_rowCount hrows hy
    obtain ⟨rfl, hreach, hshort⟩ := seeksTo_iff.mp h
    exact seekRow_eq_some hk hshort hreach

theorem exists_seeksTo_iff (hrows : f.rowCount ≤ lengthLimit) (hy : y < f.rowCount) :
    (∃ k z, f.SeeksTo x d.step y k z) ↔ ∃ z, x < f.rowLength z := by
  constructor
  · rintro ⟨k, z, h⟩
    exact ⟨z, (seeksTo_iff.mp h).2.1⟩
  · rintro ⟨z, hz⟩
    cases hseek : f.seekRow x d.step f.rowCount y with
    | some z' =>
      obtain ⟨k, h⟩ := exists_seeksTo_of_seekRow hseek
      exact ⟨k, z', h⟩
    | none =>
      obtain ⟨j, hj, rfl⟩ :=
        exists_nextRow_iterate_eq f hrows d hy (lt_rowCount_of_lt_rowLength hz)
      have hshort := (seekRow_eq_none_iff _ _ _ _ _).mp hseek j hj
      omega

/-! ## The nearest row -/

/-- The row that is `k` rows away from row `y` in the direction `d`, around the cycle of rows. -/
def rowAt (f : Playfield) (d : Direction) (y k : Nat) : Nat :=
  ((y + d.sense * k) % f.rowCount).toNat

/-- Of the rows ahead of `p`, that at distance `k` is the first that reaches the column of `p`. -/
structure Nearest (f : Playfield) (d : Direction) (p : Position) (k : Nat) : Prop where
  ahead : 1 ≤ k
  reaches : p.x < f.rowLength (f.rowAt d p.y k)
  short : ∀ j, 1 ≤ j → j < k → f.rowLength (f.rowAt d p.y j) ≤ p.x

theorem nextRow_lt (hpos : 0 < f.rowCount) (hrows : f.rowCount ≤ lengthLimit) (step : Int64)
    (y : Nat) : f.nextRow step y < f.rowCount := by
  have hlimit : lengthLimit = 2 ^ 60 := rfl
  exact Word.wrap_lt y step hpos (by omega)

/-- The rows that the search looks at, in exact integers. -/
theorem nextRow_iterate_eq_rowAt (hpos : 0 < f.rowCount) (hrows : f.rowCount ≤ lengthLimit)
    (hy : y < 0x8000000000000000) (k : Nat) :
    (f.nextRow d.step)^[k] (f.nextRow d.step y) = f.rowAt d y (k + 1) := by
  have hlimit : lengthLimit = 2 ^ 60 := rfl
  have hfirst : (f.nextRow d.step y : Int) = (y + d.sense) % f.rowCount := by
    rw [nextRow, Word.wrap_cast_of_lt _ hy hpos (by omega), d.toInt_step]
  have hlater := (nextRow_iterate f hrows d (nextRow_lt hpos hrows d.step y) k).1
  rw [hfirst, d.toInt_step, Int.emod_add_emod] at hlater
  have hsum : (y : Int) + d.sense * ((k + 1 : Nat) : Int) = y + d.sense + d.sense * k := by
    push_cast
    rw [Int.mul_add, Int.mul_one]
    omega
  rw [rowAt, hsum, ← hlater, Int.toNat_natCast]

theorem SeeksTo.nearest {p : Position} (hpos : 0 < f.rowCount) (hrows : f.rowCount ≤ lengthLimit)
    (hy : p.y < 0x8000000000000000) (h : f.SeeksTo p.x d.step (f.nextRow d.step p.y) k z) :
    z = f.rowAt d p.y (k + 1) ∧ f.Nearest d p (k + 1) := by
  obtain ⟨rfl, hreach, hshort⟩ := seeksTo_iff.mp h
  have hrow := nextRow_iterate_eq_rowAt (d := d) hpos hrows hy
  rw [hrow] at hreach ⊢
  refine ⟨rfl, Nat.succ_pos k, hreach, ?_⟩
  intro j hj hjk
  obtain ⟨i, rfl⟩ : ∃ i, j = i + 1 := ⟨j - 1, by omega⟩
  rw [← hrow]
  exact hshort i (by omega)

theorem advance?_vertical (hd : d.isHorizontal = false) (hpos : 0 < f.rowCount) (p : Position) :
    f.advance? p d =
      (f.seekRow p.x d.step f.rowCount (f.nextRow d.step p.y)).map fun y => ⟨p.x, y⟩ := by
  rw [advance?, if_neg (by simp [hd]), if_neg (by omega)]
  rfl

/-- A step gives the end of the loop, and no answer if the loop has no end. -/
theorem advance?_eq_some_iff (hd : d.isHorizontal = false) (hpos : 0 < f.rowCount)
    (hrows : f.rowCount ≤ lengthLimit) (p q : Position) :
    f.advance? p d = some q ↔
      q.x = p.x ∧ ∃ k, f.SeeksTo p.x d.step (f.nextRow d.step p.y) k q.y := by
  rw [advance?_vertical hd hpos, Option.map_eq_some_iff]
  constructor
  · rintro ⟨z, hz, rfl⟩
    exact ⟨rfl, (seekRow_eq_some_iff hrows (nextRow_lt hpos hrows _ _)).mp hz⟩
  · rintro ⟨hx, hseek⟩
    refine ⟨q.y, (seekRow_eq_some_iff hrows (nextRow_lt hpos hrows _ _)).mpr hseek, ?_⟩
    rw [← hx]

/-- **A vertical step finds the nearest row.** The search ends, and the step with it, if and only
if some row reaches the column. The step then keeps the column and leads to the row at the least
distance, at most once around, that reaches it: to a stored cell, over rows that are all too
short. -/
theorem vertical_step_nearest (f : Playfield) (hpos : 0 < f.rowCount)
    (hrows : f.rowCount ≤ lengthLimit) (p : Position) (hy : p.y < 0x8000000000000000)
    {d : Direction} (hd : d.isHorizontal = false) :
    ((∃ k z, f.SeeksTo p.x d.step (f.nextRow d.step p.y) k z) ↔ ∃ y, p.x < f.rowLength y) ∧
    ((∃ q, f.advance? p d = some q) ↔ ∃ y, p.x < f.rowLength y) ∧
    ∀ q, f.advance? p d = some q →
      (∃ k, f.SeeksTo p.x d.step (f.nextRow d.step p.y) k q.y) ∧
      (∃ k ≤ f.rowCount, f.Nearest d p k ∧ q = ⟨p.x, f.rowAt d p.y k⟩) ∧ f.Stored q := by
  have hfirst := nextRow_lt hpos hrows d.step p.y
  have hends := exists_seeksTo_iff (f := f) (x := p.x) (d := d) hrows hfirst
  refine ⟨hends, ?_, ?_⟩
  · rw [← hends]
    constructor
    · rintro ⟨q, hq⟩
      obtain ⟨_, k, hseek⟩ := (advance?_eq_some_iff hd hpos hrows p q).mp hq
      exact ⟨k, q.y, hseek⟩
    · rintro ⟨k, z, hseek⟩
      exact ⟨⟨p.x, z⟩, (advance?_eq_some_iff hd hpos hrows p ⟨p.x, z⟩).mpr ⟨rfl, k, hseek⟩⟩
  · rintro ⟨qx, qy⟩ hq
    obtain ⟨rfl, k, hseek⟩ := (advance?_eq_some_iff hd hpos hrows p _).mp hq
    have hk := hseek.lt_rowCount hrows hfirst
    obtain ⟨hrow, hnearest⟩ := hseek.nearest hpos hrows hy
    refine ⟨⟨k, hseek⟩, ⟨k + 1, hk, hnearest, by rw [← hrow]⟩, ?_⟩
    exact (seeksTo_iff.mp hseek).2.1

/-- Between two rows of two cells, one of one cell and an empty one. -/
def terrace : Playfield :=
  ⟨[[.char 'a', .char 'b'], [.char 'c'], [], [.char 'd', .char 'e']]⟩

/-- From row 9, which is not there, the way down comes to the empty row 2 first and ends in row 3.
Up from row 3 it passes two rows and ends in row 0; in column 2 it does not end. -/
theorem vertical_step_nearest_terrace :
    (∃ k ≤ 4, terrace.Nearest .down ⟨1, 9⟩ k ∧ terrace.rowAt .down 9 k = 3) ∧
    (∃ k ≤ 4, terrace.Nearest .up ⟨1, 3⟩ k ∧ terrace.rowAt .up 3 k = 0) ∧
    ¬ ∃ k z, terrace.SeeksTo 2 (-1) (terrace.nextRow (-1) 0) k z := by
  have hstep := fun p hy (d : Direction) hd =>
    vertical_step_nearest terrace (by decide) (by decide) p hy (d := d) hd
  refine ⟨?_, ?_, ?_⟩
  · obtain ⟨_, ⟨k, hk, hnearest, hq⟩, _⟩ :=
      (hstep ⟨1, 9⟩ (by decide) .down rfl).2.2 ⟨1, 3⟩ (by decide)
    exact ⟨k, hk, hnearest, (congrArg Position.y hq).symm⟩
  · obtain ⟨_, ⟨k, hk, hnearest, hq⟩, _⟩ :=
      (hstep ⟨1, 3⟩ (by decide) .up rfl).2.2 ⟨1, 0⟩ (by decide)
    exact ⟨k, hk, hnearest, (congrArg Position.y hq).symm⟩
  · have hno := (hstep ⟨2, 0⟩ (by decide) .up rfl).2.1
    intro hends
    obtain ⟨q, hq⟩ := hno.mpr ((hstep ⟨2, 0⟩ (by decide) .up rfl).1.mp hends)
    have hnone : terrace.advance? ⟨2, 0⟩ .up = none := by decide
    rw [hnone] at hq
    cases hq

end Playfield

end Funge
