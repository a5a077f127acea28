import Mathlib.Data.Finset.Card
import Mathlib.Data.Nat.Count
import Funge.Proofs.Movement

/-!
Circuits. Steps in one direction from a stored cell lead over stored cells only, and they come
round: after as many steps as the row has cells, or as there are rows that reach the column, the
walk is back where it began.
-/

namespace Funge.Playfield

variable {f : Playfield} {d : Direction}

/-- The place one step on; the place itself if there is nowhere to go. -/
def ahead (f : Playfield) (d : Direction) (p : Position) : Position := (f.advance? p d).getD p

/-- The number of cells on the way around from `p`: those of its row, or the rows longer than its
column. -/
def circuit (f : Playfield) (p : Position) (d : Direction) : Nat :=
  if d.isHorizontal then f.rowLength p.y else Nat.count (fun y => p.x < f.rowLength y) f.rowCount

theorem Stored.ahead {p : Position} (hp : f.Stored p) (hf : f.Bounded) (d : Direction) :
    f.advance? p d = some (f.ahead d p) ∧ f.Stored (f.ahead d p) := by
  obtain ⟨q, hq, hstored⟩ := advance?_of_movable hf (hp.movable d)
  have hahead : f.ahead d p = q := by rw [Playfield.ahead, hq, Option.getD_some]
  rw [hahead]
  exact ⟨hq, hstored⟩

theorem Stored.ahead_iterate {p : Position} (hp : f.Stored p) (hf : f.Bounded) (d : Direction)
    (k : Nat) : f.Stored ((f.ahead d)^[k] p) := by
  induction k with
  | zero => exact hp
  | succ k ih =>
    rw [Function.iterate_succ_apply']
    exact (ih.ahead hf d).2

theorem circuit_pos {p : Position} (hp : f.Stored p) (d : Direction) : 0 < f.circuit p d := by
  unfold circuit
  split
  · exact Nat.lt_of_le_of_lt (Nat.zero_le _) hp
  · rw [Nat.pos_iff_ne_zero, Nat.count_ne_iff_exists]
    exact ⟨p.y, lt_rowCount_of_lt_rowLength hp, hp⟩

theorem circuit_le_extent (f : Playfield) (p : Position) (d : Direction) :
    f.circuit p d ≤ f.extent p d := by
  unfold circuit extent
  split
  · exact Nat.le_refl _
  · exact Nat.count_le _

/-! ## Along a row -/

theorem ahead_iterate_horizontal (hd : d.isHorizontal = true) (p : Position) (k : Nat) :
    (f.ahead d)^[k] p = ⟨(fun x => Word.wrap x d.step (f.rowLength p.y))^[k] p.x, p.y⟩ := by
  induction k with
  | zero => rfl
  | succ k ih =>
    rw [Function.iterate_succ_apply', ih, Function.iterate_succ_apply', ahead, advance?, if_pos hd]
    rfl

theorem extent_ahead_iterate (f : Playfield) (p : Position) (d : Direction) (k : Nat) :
    f.extent ((f.ahead d)^[k] p) d = f.extent p d := by
  unfold extent
  split
  · next hd => rw [ahead_iterate_horizontal hd]
  · rfl

/-! ## Along a column -/

/-- A search ends at the first row that reaches the column. -/
theorem seekRow_eq_some {x : Nat} {step : Int64} {fuel k y : Nat} (hk : k < fuel)
    (hshort : ∀ j < k, f.rowLength ((f.nextRow step)^[j] y) ≤ x)
    (hreach : x < f.rowLength ((f.nextRow step)^[k] y)) :
    f.seekRow x step fuel y = some ((f.nextRow step)^[k] y) := by
  induction k generalizing fuel y with
  | zero =>
    obtain ⟨fuel, rfl⟩ : ∃ n, fuel = n + 1 := ⟨fuel - 1, by omega⟩
    rw [seekRow, if_pos (show x < f.rowLength y from hreach)]
    rfl
  | succ k ih =>
    obtain ⟨fuel, rfl⟩ : ∃ n, fuel = n + 1 := ⟨fuel - 1, by omega⟩
    have hfirst : f.rowLength y ≤ x := hshort 0 (by omega)
    rw [seekRow, if_neg (by omega)]
    exact ih (by omega) (fun j hj => hshort (j + 1) (by omega)) hreach

theorem ahead_vertical (hd : d.isHorizontal = false) {x y k : Nat} (hk : k < f.rowCount)
    (hshort : ∀ j < k, f.rowLength ((f.nextRow d.step)^[j + 1] y) ≤ x)
    (hreach : x < f.rowLength ((f.nextRow d.step)^[k + 1] y)) :
    f.ahead d ⟨x, y⟩ = ⟨x, (f.nextRow d.step)^[k + 1] y⟩ := by
  have hseek : f.seekRow x d.step f.rowCount (Word.wrap y d.step f.rowCount) =
      some ((f.nextRow d.step)^[k + 1] y) := seekRow_eq_some hk hshort hreach
  rw [ahead, advance?, if_neg (by simp [hd]), if_neg (by omega)]
  simp only [hseek, Option.map_some, Option.getD_some]

/-- To come to a row that reaches the column takes one step for each such row on the way. -/
theorem ahead_iterate_count (hd : d.isHorizontal = false) {x y t : Nat} (ht : t ≤ f.rowCount)
    (hreach : x < f.rowLength ((f.nextRow d.step)^[t] y)) :
    (f.ahead d)^[Nat.count (fun s => x < f.rowLength ((f.nextRow d.step)^[s + 1] y)) t] ⟨x, y⟩ =
      ⟨x, (f.nextRow d.step)^[t] y⟩ := by
  induction t using Nat.strong_induction_on generalizing y with
  | h t ih =>
    cases t with
    | zero => rfl
    | succ t =>
      -- the first step leads to the first of these rows, and the rest is the way from there
      have hsome : ∃ k, x < f.rowLength ((f.nextRow d.step)^[k + 1] y) := ⟨t, hreach⟩
      let k := Nat.find hsome
      have hk : k ≤ t := Nat.find_min' hsome hreach
      have hfound : x < f.rowLength ((f.nextRow d.step)^[k + 1] y) := Nat.find_spec hsome
      have hshort : ∀ j < k, ¬ x < f.rowLength ((f.nextRow d.step)^[j + 1] y) :=
        fun j hj => Nat.find_min hsome hj
      have hfirst : f.ahead d ⟨x, y⟩ = ⟨x, (f.nextRow d.step)^[k + 1] y⟩ :=
        ahead_vertical hd (by omega) (fun j hj => Nat.le_of_not_lt (hshort j hj)) hfound
      have hone : Nat.count (fun s => x < f.rowLength ((f.nextRow d.step)^[s + 1] y)) (k + 1) =
          1 := by
        rw [Nat.count_succ, if_pos hfound, Nat.count_iff_forall_not.mpr hshort]
      have hsplit : ∀ s, (f.nextRow d.step)^[k + 1 + s] y =
          (f.nextRow d.step)^[s] ((f.nextRow d.step)^[k + 1] y) := by
        intro s
        rw [Nat.add_comm, Function.iterate_add_apply]
      have hway : ∀ s, (f.nextRow d.step)^[k + 1 + s + 1] y =
          (f.nextRow d.step)^[s + 1] ((f.nextRow d.step)^[k + 1] y) := fun s => hsplit (s + 1)
      have hend : x < f.rowLength ((f.nextRow d.step)^[t - k] ((f.nextRow d.step)^[k + 1] y)) := by
        rw [← hsplit, show k + 1 + (t - k) = t + 1 by omega]
        exact hreach
      rw [show t + 1 = k + 1 + (t - k) by omega, Nat.count_add, hone, Nat.add_comm 1,
        Function.iterate_succ_apply, hfirst, hsplit, ← ih (t - k) (by omega) (by omega) hend]
      simp only [hway]

/-- Once around, every row is looked at once. -/
theorem count_nextRow_iterate (hf : f.Bounded) {y : Nat} (hy : y < f.rowCount) (P : Nat → Prop)
    [DecidablePred P] :
    Nat.count (fun s => P ((f.nextRow d.step)^[s + 1] y)) f.rowCount = Nat.count P f.rowCount := by
  let look : Nat → Nat := fun s => (f.nextRow d.step)^[s + 1] y
  have hinto : ∀ s, look s < f.rowCount := fun s => (nextRow_iterate f hf.rows d hy (s + 1)).2
  have honto : Set.SurjOn look (Finset.range f.rowCount) (Finset.range f.rowCount) := by
    intro z hz
    obtain ⟨s, hs, hlook⟩ := exists_nextRow_iterate_eq f hf.rows d (hinto 0)
      (Finset.mem_range.mp (Finset.mem_coe.mp hz))
    exact ⟨s, Finset.mem_coe.mpr (Finset.mem_range.mpr hs), hlook⟩
  have honce : Set.InjOn look (Finset.range f.rowCount) :=
    Finset.injOn_of_surjOn_of_card_le look
      (fun s _ => Finset.mem_coe.mpr (Finset.mem_range.mpr (hinto s))) honto (Nat.le_refl _)
  rw [Nat.count_eq_card_filter_range, Nat.count_eq_card_filter_range]
  apply Finset.card_nbij look
  · intro s hs
    exact Finset.mem_filter.mpr ⟨Finset.mem_range.mpr (hinto s), (Finset.mem_filter.mp hs).2⟩
  · exact honce.mono fun s hs => Finset.mem_of_mem_filter s hs
  · intro z hz
    obtain ⟨hz, hPz⟩ := Finset.mem_filter.mp hz
    obtain ⟨s, hs, rfl⟩ := honto hz
    exact ⟨s, Finset.mem_filter.mpr ⟨hs, hPz⟩, rfl⟩

theorem ahead_iterate_circuit (hf : f.Bounded) {p : Position} (hp : f.Stored p) (d : Direction) :
    (f.ahead d)^[f.circuit p d] p = p := by
  obtain ⟨x, y⟩ := p
  have hx : x < f.rowLength y := hp
  have hy : y < f.rowCount := lt_rowCount_of_lt_rowLength hx
  unfold circuit
  split
  · next hd =>
    have hlen : f.rowLength y ≤ lengthLimit := hf.cells y
    have hround := (Word.wrap_iterate d hx hlen (f.rowLength y)).1
    rw [Int.add_mul_emod_self_right, Int.emod_eq_of_lt (by omega) (by omega)] at hround
    rw [ahead_iterate_horizontal hd]
    exact congrArg (Position.mk · y) (by exact_mod_cast hround)
  · next hd =>
    have hround : (f.nextRow d.step)^[f.rowCount] y = y := by
      have hval := (nextRow_iterate f hf.rows d hy f.rowCount).1
      rw [Int.add_mul_emod_self_right, Int.emod_eq_of_lt (by omega) (by omega)] at hval
      exact_mod_cast hval
    rw [← count_nextRow_iterate (d := d) hf hy,
      ahead_iterate_count (by simpa using hd) (Nat.le_refl _) (by rw [hround]; exact hx), hround]

end Funge.Playfield
