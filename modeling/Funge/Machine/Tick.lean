import Funge.Machine.Turn

/-!
Ticks give every live cursor one turn. Cursors born during a tick have their first
turn in the next one, before all others.
-/

namespace Funge.Machine

/-- Turns in the order of the list up to the first that fails. The second part of the
answer is the list with the cursors as their turns left them. -/
def turns (m : Machine) : List Cursor → Except Stop Unit × List Cursor × Machine
  | [] => (.ok (), [], m)
  | c :: rest =>
    let t := m.turn c
    match t.result with
    | .error s => (.error s, t.cursor :: rest, t.machine)
    | .ok () =>
      let (result, after, last) := t.machine.turns rest
      (result, t.cursor :: after, last)

/-- Ends a tick: the newborn go before the others, and the terminated are removed. -/
def close (m : Machine) (after : List Cursor) : Machine :=
  let all := m.cursors ++ after
  let gone := all.filter Cursor.isTerminated
  { m with
    cursors := all.filter fun c => !c.isTerminated
    ticks := m.ticks + 1
    journal := m.journal ++ (gone.map fun c => Event.cursorTerminated c.position).toArray }

/-- Begins a tick: while the turns go on, the machine's own list holds the newborn only. -/
def opened (m : Machine) : Machine :=
  { m.report (.tick m.ticks m.cursors.length) with cursors := [] }

def tick (m : Machine) : Except Stop Unit × Machine :=
  let (result, after, last) := m.opened.turns m.cursors
  (result, last.close after)

/-- Up to `count` ticks, fewer if the program finishes or fails. -/
def step (m : Machine) : Nat → Except Stop Unit × Machine
  | 0 => (.ok (), m)
  | count + 1 =>
    if m.isFinished then (.ok (), m)
    else
      match m.tick with
      | (.ok (), m) => m.step count
      | (.error s, m) => (.error s, m)

end Funge.Machine
