import Funge.Cursor.Act
import Funge.Machine.Basic

/-!
One cursor's turn: meet a cell, execute or push it, move.
-/

namespace Funge

/-- A cursor and the machine around it after some action. -/
structure Turn where
  machine : Machine
  cursor : Cursor
  result : Except Stop Unit

namespace Machine

/-- Takes over what a read has given. -/
def received (m : Machine) (c : Cursor) (r : Console.Reading) : Turn :=
  let m := { m with
    console := r.console
    journal := m.journal ++ (r.rejected.map Event.inputRejected).toArray }
  match r.value with
  | .ok v => ⟨m, c.push v, .ok ()⟩
  | .error f => ⟨m, c, .error (.fault f)⟩

/-- Grants a cursor's request. `location` is where the instruction stands. -/
def perform (m : Machine) (c : Cursor) (location : Position) : Effect → Turn
  | .none => ⟨m, c, .ok ()⟩
  | .print text => ⟨(m.print text).2, c, (m.print text).1⟩
  | .readInteger => m.received c m.console.readInteger
  | .readCharacter => m.received c m.console.readCharacter
  | .put x y value => ⟨(m.put x y value location).2, c, (m.put x y value location).1⟩
  | .fork => ⟨(m.fork c).2, c, (m.fork c).1⟩
  | .goRandom =>
    ⟨{ m with random := m.random.draw.2 },
      { c with direction := .ofDraw m.random.draw.1 }, .ok ()⟩

def execute (m : Machine) (c : Cursor) (i : Instruction) : Turn :=
  match c.act m.field i with
  | (after, .ok effect) => m.perform after c.position effect
  | (after, .error s) => ⟨m, after, .error s⟩

/-- What the cell under a cursor does to it, before the cursor moves on. -/
def meet (m : Machine) (c : Cursor) (cell : Cell) : Turn :=
  if c.mode = .literal then
    if cell = .char Instruction.toggle then ⟨m, c.toggleLiteral, .ok ()⟩
    else ⟨m, c.push cell.code, .ok ()⟩
  else
    match Instruction.ofCell? cell with
    | some i => m.execute c i
    | none => ⟨m, c, .error (.fault (.illegalInstruction cell c.position))⟩

/-- A cursor that halts in its turn still moves on. -/
def turn (m : Machine) (c : Cursor) : Turn :=
  let cell := m.field.read c.position
  let c := { c with last := cell }
  if c.isTerminated then ⟨m, c, .ok ()⟩
  else
    let t := m.meet c cell
    match t.result with
    | .error _ => t
    | .ok () =>
      match t.cursor.stride t.machine.field with
      | .ok c => { t with cursor := c }
      | .error s => { t with result := .error s }

end Machine

end Funge
