import Funge.Cursor.Basic
import Funge.Frame
import Funge.Journal
import Funge.Playfield.Motion
import Funge.Random

/-!
The machine: a playfield, the cursors that live on it, and the world they
reach through the console and the random source.
-/

namespace Funge

structure Settings where
  /-- An upper bound on the ticks of a second; zero is no bound. -/
  opsPerSecond : UInt32 := 0
  /-- Shows a frame before every tick; output is then kept back in the transcript. -/
  showSteps : Bool := false
  seed : Option UInt64 := none
  color : Bool := true
deriving DecidableEq

structure Machine where
  field : Playfield
  /-- The live cursors in the order of their turns. -/
  cursors : List Cursor
  transcript : String
  settings : Settings
  console : Console
  random : Random
  ticks : Nat
  journal : Array Event

namespace Machine

/-- A program at its start: one cursor at the origin that travels right. Without a seed in
the settings, `fresh` is the seed. -/
def start (field : Playfield) (settings : Settings) (console : Console) (fresh : UInt64) :
    Machine where
  field := field
  cursors := [.initial]
  transcript := ""
  settings := settings
  console := console
  random := .ofSeed (settings.seed.getD fresh)
  ticks := 0
  journal := #[]

def isFinished (m : Machine) : Bool := m.cursors.isEmpty

def report (m : Machine) (e : Event) : Machine := { m with journal := m.journal.push e }

def write (m : Machine) (text : String) : Except Stop Unit × Machine :=
  match m.console.write text with
  | (.ok (), k) => (.ok (), { m with console := k })
  | (.error cause, k) => (.error (.fault (.console cause)), { m with console := k })

/-- Program output. -/
def print (m : Machine) (text : String) : Except Stop Unit × Machine :=
  if m.settings.showSteps then (.ok (), { m with transcript := m.transcript ++ text })
  else m.write text

/-- Puts a new cursor before all others. It travels away from `parent`, starts one step
behind it, and has an empty stack. -/
def fork (m : Machine) (parent : Cursor) : Except Stop Unit × Machine :=
  let d := parent.direction.opposite
  match m.field.advance? parent.position d with
  | none => (.error .endless, m)
  | some p =>
    let m := m.report (.cursorForked parent.position p d)
    (.ok (), { m with cursors := { position := p, direction := d } :: m.cursors })

/-- Writes a value to the playfield; one with a negative coordinate is only reported. -/
def put (m : Machine) (x y value : Int64) (location : Position) : Except Stop Unit × Machine :=
  match Position.ofWords? x y with
  | none => (.ok (), m.report (.putIgnored x y value location))
  | some p =>
    match m.field.write? p (.ofValue value) with
    | some f => (.ok (), { m with field := f })
    | none => (.error .outOfMemory, m)

end Machine

end Funge
