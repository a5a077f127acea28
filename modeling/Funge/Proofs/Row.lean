import Funge.Proofs.Movement

/-!
A playfield of a single row. Its cells close into one cycle: a horizontal step goes on by one
column, from one end of the row to the other, and a vertical step comes back to its own cell.
-/

namespace Funge

/-- The column that a step leads to on a row of `len` cells. -/
def Direction.along (len x : Nat) : Direction → Nat
  | right => if x + 1 = len then 0 else x + 1
  | left => if x = 0 then len - 1 else x - 1
  | up | down => x

theorem Direction.along_lt {len x : Nat} (hx : x < len) (d : Direction) : d.along len x < len := by
  cases d with
  | right =>
    rw [along]
    split <;> omega
  | left =>
    rw [along]
    split <;> omega
  | up | down => exact hx

theorem Word.wrap_step {len x : Nat} (hx : x < len) (hlen : len ≤ Playfield.lengthLimit) :
    wrap x 1 len = Direction.right.along len x ∧ wrap x (-1) len = Direction.left.along len x := by
  have hlimit : Playfield.lengthLimit = 2 ^ 60 := rfl
  constructor
  · have h := wrap_cast_of_lt (i := x) 1 (by omega) (show 0 < len by omega) (by omega)
    rw [show (1 : Int64).toInt = 1 by decide] at h
    rw [Direction.along]
    split
    · next hend =>
      rw [show ((x : Int) + 1) = len by omega, Int.emod_self] at h
      omega
    · rw [Int.emod_eq_of_lt (by omega) (by omega)] at h
      omega
  · have h := wrap_cast_of_lt (i := x) (-1) (by omega) (show 0 < len by omega) (by omega)
    rw [show (-1 : Int64).toInt = -1 by decide] at h
    rw [Direction.along]
    split
    · next hstart =>
      rw [← Int.add_emod_right, Int.emod_eq_of_lt (by omega) (by omega)] at h
      omega
    · rw [Int.emod_eq_of_lt (by omega) (by omega)] at h
      omega

namespace Playfield

/-- The playfield of a single row. -/
def ofRow (r : List Cell) : Playfield := ⟨[r]⟩

variable {r : List Cell}

theorem read_ofRow (r : List Cell) (x : Nat) : (ofRow r).read ⟨x, 0⟩ = r[x]?.getD .blank := by
  rw [read, List.getD_eq_getElem?_getD]
  rfl

theorem extent_ofRow_pos {x : Nat} (hx : x < r.length) (d : Direction) :
    0 < (ofRow r).extent ⟨x, 0⟩ d := by
  cases d with
  | left | right => exact Nat.lt_of_le_of_lt (Nat.zero_le x) hx
  | up | down => exact Nat.one_pos

theorem advance?_ofRow {x : Nat} (hx : x < r.length) (hr : r.length ≤ lengthLimit)
    (d : Direction) : (ofRow r).advance? ⟨x, 0⟩ d = some ⟨d.along r.length x, 0⟩ := by
  cases d with
  | right => exact congrArg (fun x => some (Position.mk x 0)) (Word.wrap_step hx hr).1
  | left => exact congrArg (fun x => some (Position.mk x 0)) (Word.wrap_step hx hr).2
  | up | down =>
    -- the only row is the first that the search looks at
    have hrow : Word.wrap 0 1 1 = 0 ∧ Word.wrap 0 (-1) 1 = 0 := by decide
    simp [advance?, Direction.isHorizontal, Direction.step, ofRow, rowCount, rowLength, row,
      seekRow, hrow, hx, Direction.along]

end Playfield

namespace Cursor

variable {r : List Cell} {c : Cursor} {x : Nat}

theorem advance_ofRow (hr : r.length ≤ Playfield.lengthLimit) (hc : c.position = ⟨x, 0⟩)
    (hx : x < r.length) :
    c.advance (.ofRow r) = .ok { c with position := ⟨c.direction.along r.length x, 0⟩ } := by
  have hpos := Playfield.extent_ofRow_pos hx c.direction
  rw [advance, requireRoom, hc, if_neg (by omega)]
  simp only [Playfield.advance?_ofRow hx hr]

theorem atMarker_ofRow (hc : c.position = ⟨x, 0⟩) :
    c.atMarker (.ofRow r) = true ↔ r[x]? = some (.char Instruction.marker) := by
  rw [atMarker, decide_eq_true_iff, hc, Playfield.read_ofRow]
  cases r[x]? with
  | none => simp [Cell.blank, Instruction.marker]
  | some cell => simp

/-- A move whose first step ends off the markers is that step. -/
theorem stride_ofRow (hr : r.length ≤ Playfield.lengthLimit) (hc : c.position = ⟨x, 0⟩)
    (hx : x < r.length)
    (hfree : r[c.direction.along r.length x]? ≠ some (.char Instruction.marker)) :
    c.stride (.ofRow r) = .ok { c with position := ⟨c.direction.along r.length x, 0⟩ } := by
  apply stride_of_free (advance_ofRow hr hc hx)
  rw [← Bool.not_eq_true, atMarker_ofRow rfl]
  exact hfree

/-- A search along the row from column `col 0` over the columns `col 1`, ..., `col n` to a
marker. -/
theorem jumpOver_ofRow (hr : r.length ≤ Playfield.lengthLimit)
    (hd : c.direction.isHorizontal = true) (col : Nat → Nat) {n : Nat}
    (hc : c.position = ⟨col 0, 0⟩) (hn : n ≤ r.length)
    (hsteps : ∀ i ≤ n, col i < r.length ∧ c.direction.along r.length (col i) = col (i + 1))
    (hfree : ∀ i, 0 < i → i ≤ n → r[col i]? ≠ some (.char Instruction.marker))
    (hend : r[col (n + 1)]? = some (.char Instruction.marker)) :
    c.jumpOver (.ofRow r) = .ok { c with position := ⟨col (n + 1), 0⟩ } := by
  have hextent : (Playfield.ofRow r).extent c.position c.direction = r.length := by
    rw [Playfield.extent, if_pos hd, hc]
    rfl
  have hstart : c = { c with position := ⟨col 0, 0⟩ } := by rw [← hc]
  rw [jumpOver, hextent, hstart]
  apply scan_along (fun i => ⟨col i, 0⟩) (n := n)
  · intro i hi
    obtain ⟨hx, hnext⟩ := hsteps i hi
    rw [advance_ofRow hr rfl hx, hnext]
  · intro i hpos hi
    rw [← Bool.not_eq_true, atMarker_ofRow rfl]
    exact hfree i hpos hi
  · rw [atMarker_ofRow rfl]
    exact hend
  · omega

end Cursor

end Funge
