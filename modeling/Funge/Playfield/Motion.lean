import Funge.Direction
import Funge.Playfield.Basic
import Funge.Word

/-!
Movement on the playfield. Rows close into cycles of their own length and the rows
together into a cycle; a vertical step passes over rows too short for the column.
-/

namespace Funge.Playfield

/-- The first row from `y` on, among `fuel` rows in steps of `step`, that reaches
column `x`. -/
def seekRow (f : Playfield) (x : Nat) (step : Int64) : Nat → Nat → Option Nat
  | 0, _ => none
  | fuel + 1, y =>
    if x < f.rowLength y then some y
    else f.seekRow x step fuel (Word.wrap y step f.rowCount)

/-- One step. There is no answer if the step is vertical and no row reaches the column,
since the search for one would go round without end. -/
def advance? (f : Playfield) (p : Position) (d : Direction) : Option Position :=
  if d.isHorizontal then some ⟨Word.wrap p.x d.step (f.rowLength p.y), p.y⟩
  else if f.rowCount = 0 then some p
  else
    let y := Word.wrap p.y d.step f.rowCount
    (f.seekRow p.x d.step f.rowCount y).map fun y => ⟨p.x, y⟩

/-- A displacement by `n` cells at once, which passes over nothing. -/
def jump (f : Playfield) (p : Position) (d : Direction) (n : Int64) : Position :=
  let delta := d.step * n
  if d.isHorizontal then ⟨Word.wrap p.x delta (f.rowLength p.y), p.y⟩
  else ⟨p.x, Word.wrap p.y delta f.rowCount⟩

/-- The number of cells or rows on the cycle that a move from `p` follows. -/
def extent (f : Playfield) (p : Position) (d : Direction) : Nat :=
  if d.isHorizontal then f.rowLength p.y else f.rowCount

end Funge.Playfield
