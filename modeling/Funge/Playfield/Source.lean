import Funge.Fault
import Funge.Playfield.Basic
import Funge.Text.Blank
import Funge.Text.Utf8

/-!
Program sources. Each line becomes a row without the blanks at its end, so a
carriage return before a line end leaves no trace.
-/

namespace Funge

namespace Playfield

def ofLine (line : List Char) : List Cell := (Text.trimEnd line).map Cell.char

/-- Rows are what line ends divide: after a final line end one more row, an empty one,
begins. -/
def ofText (source : String) : Playfield :=
  ⟨(source.toList.splitOn '\n').map ofLine⟩

/-- A line without the carriage return that stands before its line end. -/
def withoutReturn (line : List Char) : List Char :=
  if line.getLast? = some '\r' then line.dropLast else line

/-- The lines of a text in which every line is ended by a line end, with or without a carriage
return before it, the last one perhaps by the end of the text. -/
def lines (source : List Char) : List (List Char) :=
  let parts := source.splitOn '\n'
  let ended := parts.dropLast.map withoutReturn
  if parts.getLast? = some [] then ended else ended ++ parts.getLast?.toList

def ofLines (source : String) : Playfield :=
  ⟨(lines source.toList).map ofLine⟩

end Playfield

/-- What a file name stands for. -/
inductive Document where
  | bytes (content : List UInt8)
  | missing
  | denied
  | directory

def Document.content : Document → Except LoadFault String
  | bytes content =>
    match Text.Utf8.decode? content with
    | some source => .ok source
    | none => .error .invalidText
  | missing => .error .missing
  | denied => .error .denied
  | directory => .error .isDirectory

def Playfield.load (name : String) (document : Document) : Except Fault Playfield :=
  match document.content with
  | .ok source => .ok (ofLines source)
  | .error cause => .error (.load name cause)

end Funge
