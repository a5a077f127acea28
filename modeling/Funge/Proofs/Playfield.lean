import Funge.Playfield.Basic

/-!
What a write does to a playfield: it changes one cell, lengthens at most one row and
adds rows at the end. Hence cells once stored stay stored, a place that could be written
can still be, and a playfield within the length limit stays within it. A playfield is known
by its shape and its cells.
-/

namespace Funge

namespace Playfield

/-- Padding with what an absent entry reads as changes no entry. -/
theorem getD_rightpad {α : Type} (l : List α) (n i : Nat) (a : α) :
    (l.rightpad n a).getD i a = l.getD i a := by
  simp only [List.rightpad, List.getD_eq_getElem?_getD, List.getElem?_append,
    List.getElem?_replicate]
  split
  · rfl
  · next h =>
    rw [List.getElem?_eq_none (show l.length ≤ i by omega)]
    split <;> rfl

theorem lt_length_rightpad {α : Type} (l : List α) (n : Nat) (a : α) :
    n < (l.rightpad (n + 1) a).length := by
  simp only [List.rightpad, List.length_append, List.length_replicate]
  omega

theorem row_write (f : Playfield) (p : Position) (c : Cell) (y : Nat) :
    (f.write p c).row y =
      if y = p.y then ((f.row y).rightpad (p.x + 1) .blank).set p.x c else f.row y := by
  have hpad := getD_rightpad f.rows (p.y + 1) y []
  rw [List.getD_eq_getElem?_getD] at hpad
  rw [row, List.getD_eq_getElem?_getD, write, List.getElem?_modify, row, ← hpad]
  by_cases h : y = p.y
  · subst h
    rw [if_pos rfl, List.getElem?_eq_getElem (lt_length_rightpad f.rows p.y [])]
    simp
  · simp [h, Ne.symm h]

theorem rowCount_write (f : Playfield) (p : Position) (c : Cell) :
    (f.write p c).rowCount = max f.rowCount (p.y + 1) := by
  simp only [rowCount, write, List.length_modify, List.rightpad, List.length_append,
    List.length_replicate]
  omega

theorem rowLength_write (f : Playfield) (p : Position) (c : Cell) (y : Nat) :
    (f.write p c).rowLength y =
      if y = p.y then max (f.rowLength y) (p.x + 1) else f.rowLength y := by
  rw [rowLength, row_write]
  split
  · simp only [List.length_set, List.rightpad, List.length_append, List.length_replicate,
      rowLength]
    omega
  · rfl

theorem read_write (f : Playfield) (p q : Position) (c : Cell) :
    (f.write p c).read q = if q = p then c else f.read q := by
  rw [read, row_write, read]
  by_cases hy : q.y = p.y
  · rw [if_pos hy]
    by_cases hx : q.x = p.x
    · have hq : q = p := by
        cases q
        cases p
        simp_all
      rw [if_pos hq, hx, List.getD_eq_getElem?_getD,
        List.getElem?_set_self (lt_length_rightpad _ p.x _)]
      rfl
    · have hq : q ≠ p := fun h => hx (by rw [h])
      rw [if_neg hq, List.getD_eq_getElem?_getD, List.getElem?_set_ne (Ne.symm hx),
        ← List.getD_eq_getElem?_getD, getD_rightpad]
  · have hq : q ≠ p := fun h => hy (by rw [h])
    rw [if_neg hy, if_neg hq]

theorem write?_eq_some {f g : Playfield} {p : Position} {c : Cell} (h : f.write? p c = some g) :
    ¬ f.Overgrows p ∧ g = f.write p c := by
  unfold write? at h
  split at h
  · cases h
  · next hgrow => exact ⟨hgrow, (Option.some.inj h).symm⟩

theorem write?_of_not_overgrows {f : Playfield} {p : Position} (hp : ¬ f.Overgrows p) (c : Cell) :
    f.write? p c = some (f.write p c) := if_neg hp

/-- A place for which there is memory is not lost by a write. -/
theorem not_overgrows_write {f : Playfield} {p : Position} (hp : ¬ f.Overgrows p) (q : Position)
    (c : Cell) : ¬ (f.write q c).Overgrows p := by
  simp only [Overgrows, rowCount_write, rowLength_write] at hp ⊢
  split <;> omega

/-- Every stored cell of `f` is one of `g`. -/
def Within (f g : Playfield) : Prop := ∀ p, f.Stored p → g.Stored p

theorem Within.refl (f : Playfield) : f.Within f := fun _ h => h

theorem within_write (f : Playfield) (p : Position) (c : Cell) : f.Within (f.write p c) := by
  intro q hq
  unfold Stored at hq ⊢
  rw [rowLength_write]
  split <;> omega

/-- Indices of lists up to this length, `2 ^ 60`, can be added as words. No list in memory is
longer. -/
def lengthLimit : Nat := 0x1000000000000000

theorem rowLimit_le_lengthLimit : rowLimit ≤ lengthLimit := by decide

theorem columnLimit_le_lengthLimit : columnLimit ≤ lengthLimit := by decide

/-- The playfield and its rows are within the length limit. -/
structure Bounded (f : Playfield) : Prop where
  rows : f.rowCount ≤ lengthLimit
  cells : ∀ y, f.rowLength y ≤ lengthLimit

theorem bounded_iff (f : Playfield) :
    f.Bounded ↔ f.rowCount ≤ lengthLimit ∧ ∀ r ∈ f.rows, r.length ≤ lengthLimit := by
  constructor
  · intro hf
    refine ⟨hf.rows, fun r hr => ?_⟩
    obtain ⟨y, hy⟩ := List.mem_iff_getElem?.mp hr
    have hcells := hf.cells y
    rwa [rowLength, row, List.getD_eq_getElem?_getD, hy] at hcells
  · rintro ⟨hrows, hcells⟩
    refine ⟨hrows, fun y => ?_⟩
    rw [rowLength, row, List.getD_eq_getElem?_getD]
    cases hy : f.rows[y]? with
    | none => exact Nat.zero_le _
    | some r => exact hcells r (List.mem_of_getElem? hy)

instance (f : Playfield) : Decidable f.Bounded := decidable_of_iff _ (bounded_iff f).symm

theorem Bounded.write {f : Playfield} (hf : f.Bounded) {p : Position} (c : Cell)
    (hgrow : ¬ f.Overgrows p) : (f.write p c).Bounded := by
  have hrows := hf.rows
  have hrow := rowLimit_le_lengthLimit
  have hcolumn := columnLimit_le_lengthLimit
  simp only [Overgrows, not_or, not_and, Nat.not_le] at hgrow
  constructor
  · rw [rowCount_write]
    omega
  · intro y
    have hy := hf.cells y
    rw [rowLength_write]
    split
    · next h =>
      subst h
      omega
    · exact hy

theorem rowLength_of_rowCount_le {f : Playfield} {y : Nat} (h : f.rowCount ≤ y) :
    f.rowLength y = 0 := by
  rw [rowLength, row, List.getD_eq_getElem?_getD, List.getElem?_eq_none h]
  rfl

theorem read_of_empty_row {f : Playfield} {p : Position} (h : f.rowLength p.y = 0) :
    f.read p = .blank := by
  rw [read, List.eq_nil_of_length_eq_zero h]
  rfl

/-- A row with a cell in some column is one of the rows that are there. -/
theorem lt_rowCount_of_lt_rowLength {f : Playfield} {x y : Nat} (h : x < f.rowLength y) :
    y < f.rowCount := by
  apply Nat.lt_of_not_le
  intro hy
  rw [rowLength_of_rowCount_le hy] at h
  omega

/-- A write to a stored cell needs no memory. -/
theorem Stored.not_overgrows {f : Playfield} {p : Position} (hp : f.Stored p) :
    ¬ f.Overgrows p := by
  have hx : p.x < f.rowLength p.y := hp
  have hy := lt_rowCount_of_lt_rowLength hp
  rintro (h | h) <;> omega

/-- The same rows up to what their cells hold. -/
structure SameShape (f g : Playfield) : Prop where
  rows : g.rowCount = f.rowCount
  cells : ∀ y, g.rowLength y = f.rowLength y

/-- Playfields of one shape with the same cells are the same. -/
theorem SameShape.eq {f g : Playfield} (h : f.SameShape g)
    (hread : ∀ p, g.read p = f.read p) : g = f := by
  obtain ⟨rs⟩ := f
  obtain ⟨ss⟩ := g
  congr 1
  apply List.ext_getElem h.rows
  intro y hy hy'
  have hrow : ∀ (ts : List (List Cell)) (ht : y < ts.length), (Playfield.mk ts).row y = ts[y] := by
    intro ts ht
    simp [row, List.getElem?_eq_getElem ht]
  have hlen := h.cells y
  rw [rowLength, rowLength, hrow ss hy, hrow rs hy'] at hlen
  apply List.ext_getElem hlen
  intro x hx hx'
  have hcell := hread ⟨x, y⟩
  simp only [read, hrow ss hy, hrow rs hy'] at hcell
  simpa [List.getElem?_eq_getElem hx, List.getElem?_eq_getElem hx'] using hcell

end Playfield

end Funge
