import Funge.Cursor.Basic
import Funge.Fault
import Funge.Instruction
import Funge.Playfield.Motion

/-!
How cursors move. Markers enclose stretches that cost no turn: a cursor that comes
to a marker goes on behind the matching one at once.
-/

namespace Funge.Cursor

def atMarker (f : Playfield) (c : Cursor) : Bool :=
  f.read c.position = .char Instruction.marker

/-- A move needs at least one cell or row to wrap around. -/
def requireRoom (f : Playfield) (c : Cursor) : Except Stop Unit :=
  if f.extent c.position c.direction = 0 then
    .error (.fault (.emptyRow c.direction c.position))
  else .ok ()

def advance (f : Playfield) (c : Cursor) : Except Stop Cursor :=
  match c.requireRoom f with
  | .error s => .error s
  | .ok () =>
    match f.advance? c.position c.direction with
    | some p => .ok { c with position := p }
    | none => .error .endless

/-- Moves at least once, and on until the cursor stands on a marker. -/
def scan (f : Playfield) : Nat → Cursor → Except Stop Cursor
  | 0, _ => .error .endless
  | fuel + 1, c =>
    match c.advance f with
    | .error s => .error s
    | .ok c => if c.atMarker f then .ok c else scan f fuel c

/-- To the next marker. After one round of the cycle all its cells have been seen. -/
def jumpOver (f : Playfield) (c : Cursor) : Except Stop Cursor :=
  c.scan f (f.extent c.position c.direction + 1)

/-- Passes over marked stretches until the cursor stands on no marker. -/
def passMarkers (f : Playfield) : Nat → Cursor → Except Stop Cursor
  | 0, _ => .error .endless
  | fuel + 1, c =>
    if c.atMarker f then
      match c.jumpOver f with
      | .error s => .error s
      | .ok c =>
        match c.advance f with
        | .error s => .error s
        | .ok c => passMarkers f fuel c
    else .ok c

/-- The move that ends a turn. Each stretch passed over leads to a new place of the cycle,
so there are no more of them than places. -/
def stride (f : Playfield) (c : Cursor) : Except Stop Cursor :=
  match c.advance f with
  | .error s => .error s
  | .ok c => c.passMarkers f (f.extent c.position c.direction + 1)

def jumpForward (f : Playfield) (n : Int64) (c : Cursor) : Except Stop Cursor :=
  match c.requireRoom f with
  | .error s => .error s
  | .ok () => .ok { c with position := f.jump c.position c.direction n }

end Funge.Cursor
