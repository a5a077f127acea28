import Funge.Machine.Tick

/-!
Whole runs. A program may go on for ever, so a run is given a number of ticks and
has no answer if they do not suffice.
-/

namespace Funge.Machine

def frame (m : Machine) : String :=
  Frame.render m.settings.color m.field m.cursors m.transcript

/-- Shows a frame if the settings ask for it. -/
def showFrame (m : Machine) : Except Stop Unit × Machine :=
  if m.settings.showSteps then m.write m.frame else (.ok (), m)

/-- One round of a run: a frame, then a tick. -/
def round (m : Machine) : Except Stop Unit × Machine :=
  match m.showFrame with
  | (.ok (), m) => m.tick
  | (.error s, m) => (.error s, m)

/-- Rounds until the program finishes or fails. -/
def rounds (m : Machine) : Nat → Option (Except Stop Unit × Machine)
  | 0 => if m.isFinished then some (.ok (), m) else none
  | fuel + 1 =>
    if m.isFinished then some (.ok (), m)
    else
      match m.round with
      | (.ok (), m) => m.rounds fuel
      | (.error s, m) => some (.error s, m)

def announce (m : Machine) : Machine :=
  m.report (.runStarted m.field.rowCount m.settings.opsPerSecond m.settings.showSteps)

/-- The end of a run that did not fail: the last tick's frame and a line end. -/
def finish (m : Machine) : Except Stop Unit × Machine :=
  match m.showFrame with
  | (.error s, m) => (.error s, m)
  | (.ok (), m) =>
    match m.write "\n" with
    | (.error s, m) => (.error s, m)
    | (.ok (), m) => (.ok (), m.report (.runFinished m.ticks))

/-- Runs until every cursor has halted, for at most `fuel` ticks. -/
def run (m : Machine) (fuel : Nat) : Option (Except Stop Unit × Machine) :=
  match m.announce.rounds fuel with
  | none => none
  | some (.error s, m) => some (.error s, m)
  | some (.ok (), m) => some m.finish

end Funge.Machine
