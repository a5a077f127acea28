import Funge.Machine.Basic
import Funge.Text.Quoted

/-!
A text that shows all the parts of a machine.
-/

namespace Funge

open Text

/-- A value of several named parts. -/
def inspectParts (name : String) (parts : List (String × String)) (rest : String) : String :=
  name ++ " \x7b " ++ ", ".intercalate (parts.map fun (part, value) => part ++ ": " ++ value) ++
    rest ++ " \x7d"

def inspectList (values : List String) : String := "[" ++ ", ".intercalate values ++ "]"

def inspectBool (b : Bool) : String := if b then "true" else "false"

def Cell.inspect : Cell → String
  | char c => "Char(" ++ quoteChar c ++ ")"
  | int v => "Int(" ++ Decimal.write v.toInt ++ ")"

def Position.inspect (p : Position) : String :=
  inspectParts "Position" [("x", Decimal.write p.x), ("y", Decimal.write p.y)] ""

def Direction.inspect : Direction → String
  | left => "Left"
  | right => "Right"
  | up => "Up"
  | down => "Down"

def Mode.inspect : Mode → String
  | normal => "Normal"
  | literal => "Literal"
  | terminated => "Terminated"

def Playfield.inspect (f : Playfield) : String :=
  let rows := f.rows.map fun r => inspectList (r.map Cell.inspect)
  inspectParts "Grid" [("rows", inspectList rows)] ""

def Cursor.inspect (c : Cursor) : String :=
  inspectParts "Cursor"
    [("stack", c.stack.inspect), ("position", c.position.inspect),
     ("direction", c.direction.inspect), ("mode", c.mode.inspect),
     ("last_instruction", c.last.inspect)] ""

def Settings.inspect (s : Settings) : String :=
  inspectParts "RunConfig"
    [("ops_per_second", Decimal.write s.opsPerSecond.toNat),
     ("show_steps", inspectBool s.showSteps),
     ("seed", match s.seed with
       | some seed => "Some(" ++ Decimal.write seed.toNat ++ ")"
       | none => "None"),
     ("color", inspectBool s.color)] ""

def Machine.inspect (m : Machine) : String :=
  inspectParts "Engine"
    [("grid", m.field.inspect), ("cursors", inspectList (m.cursors.map Cursor.inspect)),
     ("output_log", quoteText m.transcript), ("config", m.settings.inspect),
     ("ticks", Decimal.write m.ticks)] ", .."

end Funge
