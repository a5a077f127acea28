import Mathlib.Logic.Equiv.Defs
import Mathlib.Order.Bounds.Defs
import Funge.Proofs.NearestRow

/-!
Movement permutes the stored cells. A step in the opposite direction undoes a step, also where the
vertical way leads over rows that are too short, because both searches pass the same rows. So the
stored cells fall into cycles, and the cycle of a cell is as long as its row, or as the number of
rows that reach its column.
-/

namespace Funge

namespace Direction

theorem isHorizontal_opposite (d : Direction) : d.opposite.isHorizontal = d.isHorizontal := by
  cases d <;> rfl

theorem sense_opposite (d : Direction) : d.opposite.sense = -d.sense := by
  cases d <;> rfl

theorem sense_mul_sense (d : Direction) : d.sense * d.sense = 1 := by
  cases d <;> rfl

end Direction

namespace Word

variable {i len : Nat}

/-- A step back around a cycle undoes the step. -/
theorem wrap_opposite (d : Direction) (hi : i < len) (hlen : len ≤ Playfield.lengthLimit) :
    wrap (wrap i d.step len) d.opposite.step len = i := by
  have hlimit : Playfield.lengthLimit = 2 ^ 60 := rfl
  have hback : (wrap (wrap i d.step len) d.opposite.step len : Int) = i := by
    rw [wrap_wrap_cast _ _ _ (by omega) (by omega), Int64.toInt_ofNat_of_lt (by omega),
      d.toInt_step, d.opposite.toInt_step, d.sense_opposite, Int.add_neg_cancel_right,
      Int.emod_eq_of_lt (by omega) (by omega)]
  exact_mod_cast hback

/-- Steps around a cycle lead back after whole rounds only. -/
theorem dvd_of_wrap_iterate_eq (d : Direction) (hi : i < len) (hlen : len ≤ Playfield.lengthLimit)
    {k : Nat} (h : (fun i => wrap i d.step len)^[k] i = i) : len ∣ k := by
  have hval := (wrap_iterate d hi hlen k).1
  rw [h, d.toInt_step] at hval
  have hdvd : (len : Int) ∣ d.sense * k := by
    have hsub := Int.dvd_self_sub_of_emod_eq hval.symm
    rwa [Int.add_comm, Int.add_sub_cancel] at hsub
  have hk : (k : Int) = d.sense * (d.sense * k) := by
    rw [← Int.mul_assoc, d.sense_mul_sense, Int.one_mul]
  rw [← Int.natCast_dvd_natCast, hk]
  exact Int.dvd_mul_of_dvd_right hdvd

end Word

namespace Playfield

variable {f : Playfield} {d : Direction} {p q : Position} {x y : Nat}

/-! ## The way back -/

theorem nextRow_iterate_opposite (hrows : f.rowCount ≤ lengthLimit) (hy : y < f.rowCount)
    (i j : Nat) :
    (f.nextRow d.opposite.step)^[j] ((f.nextRow d.step)^[i + j] y) = (f.nextRow d.step)^[i] y := by
  induction j with
  | zero => rfl
  | succ j ih =>
    have hlt := (nextRow_iterate f hrows d hy (i + j)).2
    have hback : f.nextRow d.opposite.step (f.nextRow d.step ((f.nextRow d.step)^[i + j] y)) =
        (f.nextRow d.step)^[i + j] y := Word.wrap_opposite d hlt hrows
    rw [Function.iterate_succ_apply, ← Nat.add_assoc, Function.iterate_succ_apply', hback, ih]

/-- The search on the way back ends where the way began: it passes the rows that the search on the
way there has passed, the last one first. -/
theorem SeeksTo.opposite {k z : Nat} (h : f.SeeksTo x d.step (f.nextRow d.step y) k z)
    (hrows : f.rowCount ≤ lengthLimit) (hy : x < f.rowLength y) :
    f.SeeksTo x d.opposite.step (f.nextRow d.opposite.step z) k y := by
  have hylt := lt_rowCount_of_lt_rowLength hy
  obtain ⟨rfl, _, hshort⟩ := seeksTo_iff.mp h
  have hback : ∀ i j, i + j = k + 1 →
      (f.nextRow d.opposite.step)^[j] ((f.nextRow d.step)^[k] (f.nextRow d.step y)) =
        (f.nextRow d.step)^[i] y := by
    intro i j hij
    rw [← Function.iterate_succ_apply, show k.succ = i + j by omega]
    exact nextRow_iterate_opposite hrows hylt i j
  apply seeksTo_iff.mpr
  refine ⟨?_, hy, ?_⟩
  · rw [← Function.iterate_succ_apply, hback 0 (k + 1) (by omega)]
    rfl
  · intro j hj
    rw [← Function.iterate_succ_apply, hback (k - 1 - j + 1) (j + 1) (by omega),
      Function.iterate_succ_apply]
    exact hshort (k - 1 - j) (by omega)

theorem advance?_opposite (hf : f.Bounded) (hp : f.Stored p) (h : f.advance? p d = some q) :
    f.advance? q d.opposite = some p := by
  cases hd : d.isHorizontal with
  | true =>
    rw [advance?, if_pos hd] at h
    obtain rfl := Option.some.inj h
    rw [advance?, if_pos (d.isHorizontal_opposite.trans hd), Word.wrap_opposite d hp (hf.cells p.y)]
  | false =>
    have hpos : 0 < f.rowCount := by
      have := lt_rowCount_of_lt_rowLength hp
      omega
    obtain ⟨hx, k, hseek⟩ := (advance?_eq_some_iff hd hpos hf.rows p q).mp h
    apply (advance?_eq_some_iff (d.isHorizontal_opposite.trans hd) hpos hf.rows q p).mpr
    rw [hx]
    exact ⟨rfl, k, hseek.opposite hf.rows hp⟩

theorem Stored.ahead_opposite (hp : f.Stored p) (hf : f.Bounded) (d : Direction) :
    f.ahead d.opposite (f.ahead d p) = p := by
  have hback := advance?_opposite hf hp (hp.ahead hf d).1
  rw [Playfield.ahead, hback, Option.getD_some]

/-- The steps in one direction, as a permutation of the stored cells. -/
def travel (hf : f.Bounded) (d : Direction) : Equiv.Perm {p // f.Stored p} where
  toFun p := ⟨f.ahead d p, (p.2.ahead hf d).2⟩
  invFun p := ⟨f.ahead d.opposite p, (p.2.ahead hf d.opposite).2⟩
  left_inv p := Subtype.ext (p.2.ahead_opposite hf d)
  right_inv p := by
    have hback := p.2.ahead_opposite hf d.opposite
    rw [d.opposite_opposite] at hback
    exact Subtype.ext hback

/-! ## The length of a cycle -/

/-- `m` steps one after another; there is no answer if one of them has none. -/
def advances? (f : Playfield) (d : Direction) : Nat → Position → Option Position
  | 0, p => some p
  | m + 1, p => (f.advance? p d).bind (f.advances? d m)

theorem advances?_of_stored (hf : f.Bounded) (hp : f.Stored p) (d : Direction) (m : Nat) :
    f.advances? d m p = some ((f.ahead d)^[m] p) := by
  induction m generalizing p with
  | zero => rfl
  | succ m ih =>
    obtain ⟨hstep, hstored⟩ := hp.ahead hf d
    rw [advances?, hstep, Option.bind_some, ih hstored, Function.iterate_succ_apply]

/-- Every number of rows that reach the column is met on the way, and first at such a row. -/
theorem exists_count_eq (hy : x < f.rowLength y) {m t : Nat}
    (hm : m ≤ Nat.count (fun s => x < f.rowLength ((f.nextRow d.step)^[s + 1] y)) t) :
    ∃ s ≤ t, Nat.count (fun s => x < f.rowLength ((f.nextRow d.step)^[s + 1] y)) s = m ∧
      x < f.rowLength ((f.nextRow d.step)^[s] y) := by
  induction t with
  | zero => exact ⟨0, Nat.le_refl _, (Nat.le_zero.mp hm).symm, hy⟩
  | succ t ih =>
    by_cases hlast : m ≤ Nat.count (fun s => x < f.rowLength ((f.nextRow d.step)^[s + 1] y)) t
    · obtain ⟨s, hs, hcount, hreach⟩ := ih hlast
      exact ⟨s, by omega, hcount, hreach⟩
    · rw [Nat.count_succ] at hm
      split at hm
      · next hreach =>
        refine ⟨t + 1, Nat.le_refl _, ?_, hreach⟩
        rw [Nat.count_succ, if_pos hreach]
        omega
      · omega

/-- The way from a stored cell does not lead back before it has gone all around. -/
theorem circuit_le_of_ahead_iterate_eq (hf : f.Bounded) (hp : f.Stored p) {m : Nat} (hm : 1 ≤ m)
    (h : (f.ahead d)^[m] p = p) : f.circuit p d ≤ m := by
  obtain ⟨x, y⟩ := p
  have hx : x < f.rowLength y := hp
  have hy : y < f.rowCount := lt_rowCount_of_lt_rowLength hx
  cases hd : d.isHorizontal with
  | true =>
    rw [ahead_iterate_horizontal hd] at h
    have hdvd := Word.dvd_of_wrap_iterate_eq d hx (hf.cells y) (congrArg Position.x h)
    rw [circuit, if_pos hd]
    exact Nat.le_of_dvd hm hdvd
  | false =>
    have hround : f.circuit ⟨x, y⟩ d =
        Nat.count (fun s => x < f.rowLength ((f.nextRow d.step)^[s + 1] y)) f.rowCount := by
      rw [circuit, if_neg (by simp [hd])]
      exact (count_nextRow_iterate hf hy fun z => x < f.rowLength z).symm
    -- `m` steps lead to the row at some distance `s`, and only whole rounds of rows lead back
    by_contra hlt
    obtain ⟨s, hs, hcount, hreach⟩ := exists_count_eq (d := d) (t := f.rowCount) hx
      (show m ≤ _ by omega)
    have hrow : (f.nextRow d.step)^[s] y = y := by
      have hplace := ahead_iterate_count hd hs hreach
      rw [hcount, h] at hplace
      exact (congrArg Position.y hplace).symm
    have hdvd : f.rowCount ∣ s := Word.dvd_of_wrap_iterate_eq d hy hf.rows hrow
    obtain rfl | hpos := Nat.eq_zero_or_pos s
    · rw [Nat.count_zero] at hcount
      omega
    · have hall : s = f.rowCount := Nat.le_antisymm hs (Nat.le_of_dvd hpos hdvd)
      rw [hall] at hcount
      omega

theorem count_reaching (f : Playfield) (x : Nat) :
    Nat.count (fun y => x < f.rowLength y) f.rowCount = f.rows.countP fun r => x < r.length := by
  obtain ⟨rows⟩ := f
  induction rows with
  | nil => rfl
  | cons r rows ih =>
    have hlater : (fun y => x < rowLength ⟨r :: rows⟩ (y + 1)) = fun y => x < rowLength ⟨rows⟩ y :=
      rfl
    have hfirst : rowLength ⟨r :: rows⟩ 0 = r.length := rfl
    rw [rowCount, List.length_cons, Nat.count_succ', List.countP_cons, hfirst]
    simp only [hlater, decide_eq_true_eq]
    exact congrArg (· + _) ih

/-- **Movement permutes the stored cells.** The steps in a direction are a permutation of them, and
the steps in the opposite direction are its inverse. The least number of steps that lead from a
stored cell back to it is the length of its row, or the number of rows longer than its column. -/
theorem movement_permutes (f : Playfield) (hf : f.Bounded) (d : Direction) :
    (∃ σ : Equiv.Perm {p // f.Stored p}, ∀ p : {p // f.Stored p},
      f.advance? p d = some (σ p) ∧ f.advance? p d.opposite = some (σ.symm p)) ∧
    ∀ p, f.Stored p →
      IsLeast {m | 1 ≤ m ∧ f.advances? d m p = some p}
        (if d.isHorizontal then f.rowLength p.y else f.rows.countP fun r => p.x < r.length) := by
  refine ⟨⟨travel hf d, fun p => ⟨(p.2.ahead hf d).1, (p.2.ahead hf d.opposite).1⟩⟩, ?_⟩
  intro p hp
  have hcircuit : f.circuit p d =
      if d.isHorizontal then f.rowLength p.y else f.rows.countP fun r => p.x < r.length := by
    rw [circuit, count_reaching]
  rw [← hcircuit]
  constructor
  · refine ⟨circuit_pos hp d, ?_⟩
    rw [advances?_of_stored hf hp, ahead_iterate_circuit hf hp]
  · rintro m ⟨hm, hback⟩
    rw [advances?_of_stored hf hp] at hback
    exact circuit_le_of_ahead_iterate_eq hf hp hm (Option.some.inj hback)

/-- The three cells of the first column are one cycle upwards, over an empty row. In the second
column the way leads over two rows to the one other cell. -/
theorem movement_permutes_terrace :
    terrace.Bounded ∧ terrace.Stored ⟨0, 3⟩ ∧ terrace.Stored ⟨1, 3⟩ ∧
      IsLeast {m | 1 ≤ m ∧ terrace.advances? .up m ⟨0, 3⟩ = some ⟨0, 3⟩} 3 ∧
      IsLeast {m | 1 ≤ m ∧ terrace.advances? .up m ⟨1, 3⟩ = some ⟨1, 3⟩} 2 ∧
      ∃ σ : Equiv.Perm {p // terrace.Stored p}, ∀ p : {p // terrace.Stored p},
        terrace.advance? p .up = some (σ p) ∧ terrace.advance? p .down = some (σ.symm p) := by
  have hbounded : terrace.Bounded := by decide
  have hfirst : terrace.Stored ⟨0, 3⟩ := by decide
  have hsecond : terrace.Stored ⟨1, 3⟩ := by decide
  obtain ⟨hperm, hleast⟩ := movement_permutes terrace hbounded .up
  exact ⟨hbounded, hfirst, hsecond, hleast _ hfirst, hleast _ hsecond, hperm⟩

end Playfield

end Funge
