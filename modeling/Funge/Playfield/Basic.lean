import Funge.Cell
import Funge.Position

/-!
The playfield: rows of cells, each of its own length. Reading outside the
stored cells sees a blank; writing there grows the playfield just far enough.
-/

namespace Funge

structure Playfield where
  rows : List (List Cell)
deriving DecidableEq

namespace Playfield

def empty : Playfield := ⟨[]⟩

def rowCount (f : Playfield) : Nat := f.rows.length

def row (f : Playfield) (y : Nat) : List Cell := f.rows.getD y []

/-- Zero for a row that is not there. -/
def rowLength (f : Playfield) (y : Nat) : Nat := (f.row y).length

def read (f : Playfield) (p : Position) : Cell := (f.row p.y).getD p.x .blank

/-- The position holds a stored cell. -/
def Stored (f : Playfield) (p : Position) : Prop := p.x < f.rowLength p.y

instance (f : Playfield) (p : Position) : Decidable (f.Stored p) :=
  inferInstanceAs (Decidable (_ < _))

def write (f : Playfield) (p : Position) (c : Cell) : Playfield :=
  ⟨(f.rows.rightpad (p.y + 1) []).modify p.y fun r => (r.rightpad (p.x + 1) .blank).set p.x c⟩

/-- The most bytes that one list can take up in memory. -/
def byteLimit : Nat := 0x7fffffffffffffff

/-- A list of entries of `size` bytes grows to every index below this one. While it has no entry
at `i`, it may have room for as many as `i` entries, and growing doubles the room: there must be
memory for `2 * i` entries. -/
def indexLimit (size : Nat) : Nat := byteLimit / (2 * size) + 1

/-- The bytes of a row in the list of rows, apart from its cells. -/
def rowBytes : Nat := 24

def cellBytes : Nat := 16

/-- There may be no memory for rows from this one on, `192153584101141163`. -/
def rowLimit : Nat := indexLimit rowBytes

/-- There may be no memory for columns from this one on, `2 ^ 58`. -/
def columnLimit : Nat := indexLimit cellBytes

/-- Writing at `p` makes a row or the list of rows grow to where there may be no memory for it. -/
def Overgrows (f : Playfield) (p : Position) : Prop :=
  (f.rowCount ≤ p.y ∧ rowLimit ≤ p.y) ∨ (f.rowLength p.y ≤ p.x ∧ columnLimit ≤ p.x)

instance (f : Playfield) (p : Position) : Decidable (f.Overgrows p) :=
  inferInstanceAs (Decidable (_ ∨ _))

def write? (f : Playfield) (p : Position) (c : Cell) : Option Playfield :=
  if f.Overgrows p then none else some (f.write p c)

def rowText (r : List Cell) : String := String.join (r.map Cell.text)

/-- Every row followed by a line end. -/
def text (f : Playfield) : String := String.join (f.rows.map fun r => rowText r ++ "\n")

end Playfield

end Funge
