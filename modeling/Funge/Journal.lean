import Funge.Console
import Funge.Direction
import Funge.Position
import Funge.Text.CharCode

/-!
What a run reports about itself, by level of detail.
-/

namespace Funge

inductive Level where
  | trace
  | debug
  | info
  | warn
  | error
deriving DecidableEq

namespace Level

def rank : Level → Nat
  | trace => 0
  | debug => 1
  | info => 2
  | warn => 3
  | error => 4

/-- The name in a column of five characters. -/
def text : Level → String
  | trace => "TRACE"
  | debug => "DEBUG"
  | info => " INFO"
  | warn => " WARN"
  | error => "ERROR"

end Level

inductive Event where
  | tick (count cursors : Nat)
  | cursorForked (parent child : Position) (direction : Direction)
  | cursorTerminated (position : Position)
  | runStarted (rows : Nat) (opsPerSecond : UInt32) (showSteps : Bool)
  | runFinished (ticks : Nat)
  | putIgnored (x y value : Int64) (location : Position)
  | inputRejected (line : Console.Rejected)
  | failed (message : String)
deriving DecidableEq

namespace Event

open Text

def level : Event → Level
  | tick .. => .trace
  | cursorForked .. | cursorTerminated .. | inputRejected .. => .debug
  | runStarted .. | runFinished .. => .info
  | putIgnored .. => .warn
  | failed .. => .error

def message : Event → String
  | tick .. => "tick"
  | cursorForked .. => "cursor forked"
  | cursorTerminated .. => "cursor terminated"
  | runStarted .. => "run started"
  | runFinished .. => "run finished"
  | putIgnored .. => "put outside the grid ignored"
  | inputRejected .. => "rejected integer input"
  | failed message => message

/-- The named values that belong to an event, in the order they are written. -/
def fields : Event → List (String × String)
  | tick count cursors => [("tick", Decimal.write count), ("cursors", Decimal.write cursors)]
  | cursorForked parent child direction =>
    [("parent", parent.text), ("child", child.text), ("direction", direction.text)]
  | cursorTerminated position => [("position", position.text)]
  | runStarted rows ops steps =>
    [("rows", Decimal.write rows), ("ops_per_second", Decimal.write ops.toNat),
     ("show_steps", if steps then "true" else "false")]
  | runFinished ticks => [("ticks", Decimal.write ticks)]
  | putIgnored x y value location =>
    [("x", Decimal.write x.toInt), ("y", Decimal.write y.toInt),
     ("value", Decimal.write value.toInt), ("location", location.text)]
  | inputRejected r => [("input", String.ofList r.line), ("err", r.reason.message)]
  | failed _ => []

/-- The message may quote a program, so it is made safe for the terminal. -/
def line (e : Event) : String :=
  e.level.text ++ " " ++ tame e.message ++
    String.join (e.fields.map fun (name, value) => " " ++ name ++ "=" ++ value)

end Event

/-- Which events are kept: those of a level or above, or none at all. -/
inductive Filter where
  | above (least : Level)
  | off
deriving DecidableEq

def Filter.admits : Filter → Event → Bool
  | above least, e => least.rank ≤ e.level.rank
  | off, _ => false

def Filter.lines (f : Filter) (events : List Event) : List String :=
  (events.filter f.admits).map Event.line

end Funge
