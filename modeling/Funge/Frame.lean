import Funge.Cursor.Basic
import Funge.Playfield.Basic

/-!
Pictures of a program between two ticks: the playfield with the cursors' cells
marked, every stack in two forms, and the output so far. A picture is a list of
spans, so colour can be added or left out when it is written.
-/

namespace Funge

inductive Style where
  | plain
  | divider
  | label
  | cursor
deriving DecidableEq

structure Span where
  style : Style
  text : String
deriving DecidableEq

namespace Style

/-- A terminal control sequence. -/
def control (code : String) : String := "\x1b[" ++ code ++ "m"

def opening : Style → String
  | plain => ""
  | divider => control "38;5;12"
  | label => control "38;5;3"
  | cursor => control "48;5;10" ++ control "38;5;0"

def closing : Style → String
  | plain => ""
  | divider => control "39"
  | label => control "39"
  | cursor => control "49" ++ control "39"

end Style

def Span.render (color : Bool) (s : Span) : String :=
  if color then s.style.opening ++ s.text ++ s.style.closing else s.text

namespace Frame

def dividerWidth : Nat := 80

def rowSpans (cursors : List Cursor) (y : Nat) (row : List Cell) : List Span :=
  row.mapIdx (fun x cell =>
    ⟨if cursors.any (·.position = ⟨x, y⟩) then .cursor else .plain, cell.text⟩) ++
  [⟨.plain, "\n"⟩]

def stackSpans (c : Cursor) : List Span :=
  [⟨.label, "Stack N:"⟩, ⟨.plain, " " ++ c.stack.text ++ "\n"⟩,
   ⟨.label, "Stack A:"⟩, ⟨.plain, " " ++ c.stack.characters ++ "\n"⟩]

def spans (f : Playfield) (cursors : List Cursor) (log : String) : List Span :=
  [⟨.divider, String.ofList (List.replicate dividerWidth '#')⟩, ⟨.plain, "\n"⟩,
   ⟨.label, "Code:"⟩, ⟨.plain, "\n"⟩] ++
  (f.rows.mapIdx (rowSpans cursors)).flatten ++
  cursors.flatMap stackSpans ++
  [⟨.label, "Stdout:"⟩, ⟨.plain, " " ++ log ++ "\n"⟩]

def render (color : Bool) (f : Playfield) (cursors : List Cursor) (log : String) : String :=
  String.join ((spans f cursors log).map (Span.render color))

end Frame

end Funge
